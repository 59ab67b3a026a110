import Akiso.Fuse.Directory

set_option autoImplicit false

namespace Akiso.Fuse

open CString Transition

structure ValidName (name : List UInt8) : Prop where
  filled : name ≠ []
  clean : 0 ∉ name
  single : slash ∉ name
  ordinary : ¬ special name
  short : name.length ≤ 255

def DirectChild (dir path name : List UInt8) : Prop :=
  path.head? = some slash ∧ 0 ∉ path ∧ components path = components dir ++ [name]

def DirectoryCall.name (call : DirectoryCall) : List UInt8 :=
  (components call.path).getLastD []

def existing (names : List (List UInt8)) : List DirectoryCall → List (List UInt8)
  | [] => names
  | call :: rest =>
    match call.operation with
    | .mkdir => existing (call.name :: names) rest
    | .mknod => existing (call.name :: names) rest
    | .unlink => existing (names.erase call.name) rest
    | .rmdir => existing (names.erase call.name) rest

structure Mirrors (mount : Mount) (disk : Disk) (dir : List UInt8) (names : List (List UInt8)) :
    Prop where
  entries : disk (realPath mount (components dir)) =
    some (names.map (encryptedName mount.aes mount.codec))
  valid : ∀ name ∈ names, ValidName name
  nodup : names.Nodup

section

variable {mount : Mount} {disk next : Disk} {dir path name : List UInt8}
  {names : List (List UInt8)}

theorem encryptedName_ordinary (mount : Mount) (name : List UInt8) :
    ¬ special (encryptedName mount.aes mount.codec name) := by
  have clean : dot ∉ encryptedName mount.aes mount.codec name := fun member =>
    (encryptedName_clean _ _ name dot member).2.2 rfl
  rintro (one | two)
  · exact clean (by simp [one])
  · exact clean (by simp [two])

theorem encryptedName_single (mount : Mount) (name : List UInt8) :
    slash ∉ encryptedName mount.aes mount.codec name := fun member =>
  (encryptedName_clean _ _ name slash member).2.1 rfl

theorem mem_encrypted : encryptedName mount.aes mount.codec name ∈
    names.map (encryptedName mount.aes mount.codec) ↔ name ∈ names :=
  List.mem_map_of_injective (encryptedName_injective mount.aes mount.codec)

theorem locate_child (mirrors : Mirrors mount disk dir names) (valid : ValidName name)
    (child : DirectChild dir path name) (array : Nat → UInt8)
    {found : List UInt8 × List UInt8 × List (List UInt8)}
    (located : locate disk (getRealPath mount path array).1.text = some found) :
    found = (realPath mount (components dir), encryptedName mount.aes mount.codec name,
      names.map (encryptedName mount.aes mount.codec)) := by
  obtain ⟨absolute, clean, last⟩ := child
  rw [getRealPath_text mount absolute clean, last, realPath_child mount _ valid.ordinary] at located
  unfold locate at located
  split at located
  next => simp at located
  next =>
    rw [parentEntry_append (encryptedName_single mount name)] at located
    have present : ¬ (encryptedName mount.aes mount.codec name = [] ∨
        special (encryptedName mount.aes mount.codec name)) := by
      simp [encryptedName_ne_nil, encryptedName_ordinary]
    simp only [present, if_false, mirrors.entries, Option.map_some, Option.some.injEq] at located
    exact located.symm

namespace Mirrors

theorem add (mirrors : Mirrors mount disk dir names) (valid : ValidName name)
    (child : DirectChild dir path name) (array : Nat → UInt8)
    (adds : Adds disk (getRealPath mount path array).1.text next) :
    Mirrors mount next dir (name :: names) := by
  obtain ⟨parent, entry, entries, located, absent, final⟩ := adds
  have found := locate_child mirrors valid child array located
  simp only [Prod.mk.injEq] at found
  obtain ⟨rfl, rfl, rfl⟩ := found
  constructor
  case entries => exact final
  case valid => exact List.forall_mem_cons.mpr ⟨valid, mirrors.valid⟩
  case nodup =>
    exact List.nodup_cons.mpr ⟨fun member => absent (mem_encrypted.mpr member), mirrors.nodup⟩

theorem remove (mirrors : Mirrors mount disk dir names) (valid : ValidName name)
    (child : DirectChild dir path name) (array : Nat → UInt8)
    (removes : Removes disk (getRealPath mount path array).1.text next) :
    Mirrors mount next dir (names.erase name) := by
  obtain ⟨parent, entry, entries, located, final⟩ := removes
  have found := locate_child mirrors valid child array located
  simp only [Prod.mk.injEq] at found
  obtain ⟨rfl, rfl, rfl⟩ := found
  constructor
  case entries => rw [final, List.map_erase (encryptedName_injective mount.aes mount.codec)]
  case valid => exact fun other member => mirrors.valid other (List.mem_of_mem_erase member)
  case nodup => exact mirrors.nodup.erase name

theorem step (mirrors : Mirrors mount disk dir names) {call : DirectoryCall}
    (valid : ValidName name) (child : DirectChild dir call.path name)
    (stepped : directoryStep mount disk call = some next) :
    Mirrors mount next dir (existing names [call]) := by
  have called : call.name = name := by simp [DirectoryCall.name, child.2.2]
  unfold directoryStep at stepped
  cases operation : call.operation with
  | mkdir =>
    simp only [operation] at stepped
    simp only [existing, operation, called]
    exact mirrors.add valid child call.array (mkdir_adds stepped)
  | mknod =>
    simp only [operation] at stepped
    simp only [existing, operation, called]
    exact mirrors.add valid child call.array (mknod_adds stepped)
  | unlink =>
    simp only [operation] at stepped
    simp only [existing, operation, called]
    exact mirrors.remove valid child call.array (unlink_removes stepped)
  | rmdir =>
    simp only [operation] at stepped
    simp only [existing, operation, called]
    exact mirrors.remove valid child call.array (rmdir_removes stepped)

theorem run (mirrors : Mirrors mount disk dir names) {calls : List DirectoryCall}
    (children : ∀ call ∈ calls, ∃ name, ValidName name ∧ DirectChild dir call.path name)
    (succeeded : run (directoryStep mount) disk calls = some next) :
    Mirrors mount next dir (existing names calls) := by
  induction calls generalizing disk names with
  | nil =>
    simp only [Transition.run, Option.some.injEq] at succeeded
    exact succeeded ▸ mirrors
  | cons call rest ih =>
    obtain ⟨⟨name, valid, child⟩, later⟩ := List.forall_mem_cons.mp children
    obtain ⟨middle, stepped, succeeded⟩ := Option.bind_eq_some_iff.mp succeeded
    have following := ih (mirrors.step valid child stepped) later succeeded
    have joined : existing (existing names [call]) rest = existing names (call :: rest) := by
      cases operation : call.operation <;> simp [existing, operation]
    exact joined ▸ following

end Mirrors

theorem entryName_encoded (token : List UInt8) (clean : 0 ∉ token) (short : token.length ≤ 255) :
    entryName mount (encodedComponent mount token) = some token := by
  have whole : cstring (token ++ [0]) = token := cstring_append_nul token [] clean
  unfold entryName encodedComponent
  by_cases kept : special token
  · simp [kept, whole]
  · have fits : token.take 2048 = token := List.take_of_length_le (by omega)
    simp [kept, encryptedName_ordinary, myDecryptBase64_encryptedName, fits, whole]

theorem fillEntries_map {filler : List UInt8 → Int} (accepting : ∀ name, filler name = 0)
    {entries : List (List UInt8)} (logical : List UInt8 → List UInt8)
    (known : ∀ entry ∈ entries, entryName mount entry = some (logical entry)) :
    fillEntries mount filler entries = some (entries.map logical, 0) := by
  induction entries with
  | nil => rfl
  | cons entry rest ih =>
    rw [List.forall_mem_cons] at known
    simp [fillEntries, known.1, accepting, ih known.2]

theorem fillEntries_perm {filler : List UInt8 → Int} (accepting : ∀ name, filler name = 0)
    {entries tokens : List (List UInt8)}
    (arranged : entries.Perm (tokens.map (encodedComponent mount)))
    (plain : ∀ token ∈ tokens, 0 ∉ token ∧ token.length ≤ 255) :
    ∃ passed, fillEntries mount filler entries = some (passed, 0) ∧ passed.Perm tokens := by
  have decoded : ∀ token ∈ tokens, entryName mount (encodedComponent mount token) = some token :=
    fun token member => entryName_encoded token (plain token member).1 (plain token member).2
  refine ⟨entries.map fun entry => (entryName mount entry).getD [], ?_, ?_⟩
  · apply fillEntries_map accepting
    intro entry member
    obtain ⟨token, listed, same⟩ := List.mem_map.mp (arranged.subset member)
    simp [← same, decoded token listed]
  · refine (arranged.map _).trans ?_
    rw [List.map_map]
    refine List.Perm.of_eq ((List.map_congr_left fun token member => ?_).trans (List.map_id _))
    simp [decoded token member]

theorem Mirrors.listed (mirrors : Mirrors mount disk dir names) :
    ([dot] :: [dot, dot] :: names).map (encodedComponent mount) =
      [dot] :: [dot, dot] :: names.map (encryptedName mount.aes mount.codec) := by
  have encrypted : names.map (encodedComponent mount) =
      names.map (encryptedName mount.aes mount.codec) :=
    List.map_congr_left fun name member => if_neg (mirrors.valid name member).ordinary
  simp [encrypted, encodedComponent, special]

theorem Mirrors.distinct (mirrors : Mirrors mount disk dir names) :
    ([dot] :: [dot, dot] :: names).Nodup := by
  have ordinary : ∀ name ∈ names, name ≠ [dot] ∧ name ≠ [dot, dot] := fun name member =>
    not_or.mp (mirrors.valid name member).ordinary
  rw [List.nodup_cons, List.nodup_cons]
  refine ⟨?_, ?_, mirrors.nodup⟩
  · rw [List.mem_cons, not_or]
    exact ⟨by simp, fun member => (ordinary _ member).1 rfl⟩
  · exact fun member => (ordinary _ member).2 rfl

end

structure HandedPath (mount : Mount) (path : List UInt8) : Prop where
  absolute : path.head? = some slash
  clean : 0 ∉ path
  ordinary : ∀ token ∈ components path, ¬ special token
  fits : (realPath mount (components path)).length + 2 ≤ pathMax

theorem listing_exact (mount : Mount) (disk next : Disk) (dir : List UInt8)
    (start : List (List UInt8)) (calls : List DirectoryCall) (array : Nat → UInt8)
    (order : List (List UInt8) → List (List UInt8)) (filler : List UInt8 → Int)
    (handed : HandedPath mount dir) (mirrors : Mirrors mount disk dir start)
    (children : ∀ call ∈ calls, HandedPath mount call.path ∧
      ∃ name, ValidName name ∧ DirectChild dir call.path name)
    (succeeded : run (directoryStep mount) disk calls = some next)
    (arranged : ∀ entries, (order entries).Perm entries) (accepting : ∀ name, filler name = 0) :
    (∃ passed, myReaddir mount next dir array order filler = some (passed, 0) ∧
      passed.Perm ([dot] :: [dot, dot] :: existing start calls) ∧ passed.Nodup) ∧
    Function.Injective (encryptedName mount.aes mount.codec) ∧
    ∀ name, encryptedName mount.aes mount.codec name ≠ [] ∧
      slash ∉ encryptedName mount.aes mount.codec name ∧
      ¬ special (encryptedName mount.aes mount.codec name) := by
  have final := mirrors.run (fun call member => (children call member).2) succeeded
  refine ⟨?_, encryptedName_injective _ _, fun name => ⟨encryptedName_ne_nil _ _ name,
    encryptedName_single mount name, encryptedName_ordinary mount name⟩⟩
  have plain : ∀ token ∈ [dot] :: [dot, dot] :: existing start calls,
      0 ∉ token ∧ token.length ≤ 255 := by
    rw [List.forall_mem_cons, List.forall_mem_cons]
    exact ⟨by decide, by decide, fun name member =>
      ⟨(final.valid name member).clean, (final.valid name member).short⟩⟩
  have entries := arranged (([dot] :: [dot, dot] :: existing start calls).map
    (encodedComponent mount))
  obtain ⟨passed, filled, listed⟩ := fillEntries_perm accepting entries plain
  rw [final.listed] at filled
  refine ⟨passed, ?_, listed, listed.nodup_iff.mpr final.distinct⟩
  have short : ¬ pathMax ≤ (realPath mount (components dir)).length :=
    Nat.not_le_of_lt (Nat.lt_of_succ_lt handed.fits)
  simp only [myReaddir, getRealPath_text mount handed.absolute handed.clean, short, if_false,
    final.entries, filled]

def exchange (first second block : List UInt8) : List UInt8 :=
  if block = first then second else if block = second then first else block

theorem exchange_exchange (first second block : List UInt8) :
    exchange first second (exchange first second block) = block := by
  unfold exchange
  by_cases isFirst : block = first
  · by_cases same : second = first
    · simp [isFirst, same]
    · simp [isFirst, same]
  · by_cases isSecond : block = second
    · simp [isSecond]
    · simp [isFirst, isSecond]

theorem exchange_length {first second : List UInt8} (same : first.length = second.length)
    (block : List UInt8) : (exchange first second block).length = block.length := by
  unfold exchange
  split
  next isFirst => rw [isFirst, same]
  next =>
    split
    next isSecond => rw [isSecond, same]
    next => rfl

def asd : List UInt8 := [97, 115, 100]

-- What the cipher makes of the name asd with 0123456789012345 as the key and the iv.
def encryptedAsd : List UInt8 :=
  [203, 10, 212, 207, 143, 207, 55, 168, 71, 102, 122, 10, 215, 106, 194, 141]

def sampleAes : Aes :=
  { encrypt := fun plaintext => exchange (Padding.pad asd) encryptedAsd (Padding.pad plaintext)
    decrypt := fun ciphertext => Padding.unpad (exchange (Padding.pad asd) encryptedAsd ciphertext)
    length := fun plaintext => by
      rw [exchange_length (by decide), Padding.length_pad]
    inverse := fun plaintext => by
      rw [exchange_exchange, Padding.unpad_pad] }

def sampleMount : Mount :=
  { aes := sampleAes, codec := standardCodec, root := [slash, 114], rootClean := by decide }

def sampleDisk : Disk := fun path => if path = [slash, 114] then some [] else none

def sampleCalls : List DirectoryCall :=
  [{ operation := .mkdir, path := slash :: asd, array := fun _ => 255 }]

def sampleNext : Disk :=
  (run (directoryStep sampleMount) sampleDisk sampleCalls).getD sampleDisk

theorem listing_exact_asd :
    sampleNext [slash, 114] = some [[121, 119, 114, 85, 122, 52, 94, 80, 78, 54, 104, 72, 90, 110,
      111, 75, 49, 50, 114, 67, 106, 81, 61, 61]] ∧
    ∃ passed, myReaddir sampleMount sampleNext [slash] (fun _ => 255) List.reverse (fun _ => 0) =
      some (passed, 0) ∧ passed.Perm [[dot], [dot, dot], asd] := by
  refine ⟨by decide +kernel, ?_⟩
  have fresh : Mirrors sampleMount sampleDisk [slash] [] :=
    ⟨by decide +kernel, by simp, by simp⟩
  have valid : ValidName asd := ⟨by decide, by decide, by decide, by decide, by decide⟩
  have top : HandedPath sampleMount [slash] :=
    ⟨rfl, by decide, by decide, by decide +kernel⟩
  have children : ∀ call ∈ sampleCalls, HandedPath sampleMount call.path ∧
      ∃ name, ValidName name ∧ DirectChild [slash] call.path name := by
    simp only [sampleCalls, List.mem_singleton, forall_eq]
    refine ⟨⟨rfl, by decide, by decide, by decide +kernel⟩, asd, valid, ?_⟩
    exact ⟨by decide, by decide, by decide⟩
  have present : (run (directoryStep sampleMount) sampleDisk sampleCalls).isSome = true := by
    decide +kernel
  obtain ⟨next, ran⟩ := Option.isSome_iff_exists.mp present
  have reached : run (directoryStep sampleMount) sampleDisk sampleCalls = some sampleNext := by
    rw [sampleNext, ran, Option.getD_some]
  obtain ⟨passed, filled, listed, _⟩ := (listing_exact sampleMount sampleDisk sampleNext [slash] []
    sampleCalls (fun _ => 255) List.reverse (fun _ => 0) top fresh children reached
    List.reverse_perm fun _ => rfl).1
  exact ⟨passed, filled, listed⟩

end Akiso.Fuse
