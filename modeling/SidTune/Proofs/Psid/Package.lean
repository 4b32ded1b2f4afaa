import SidTune.Proofs.Player.Assembling
import SidTune.Proofs.Player.Library
import SidTune.Proofs.Psid.Header
import SidTune.Psid.File

/-!
# What a packaged file says of itself

A packaged file is one header for all songs but for its texts, and an image with its load address,
`$00 $10`. The prefix by which the load address is found is only two bytes long, so an image that
lacks it and the same image with it give one file. The image of the library starts with a jump,
which cannot be taken for a load address, and its entry points are where the header says.

## Main definitions

* `SidTune.Psid.fixedStart`: the bytes that all packaged files have in common.
* `SidTune.Psid.Consistent`, `SidTune.Psid.Packaged`: what is said of a packaged file and of the
  library in it.

## Main results

* `SidTune.Psid.package_inj`: which images give one file.
* `SidTune.Psid.head?_image`: the image of the library starts with a jump.
* `SidTune.Psid.package_consistent`: a packaged file is consistent.
-/

namespace SidTune.Psid

open Assembly Player

/-! ### Load addresses -/

theorem hasLoadAddress_iff {image : Bytes} :
    hasLoadAddress image ↔ [0x00, 0x10] <+: image := by
  rw [List.prefix_iff_eq_take, hasLoadAddress, beq_iff_eq, eq_comm]
  rfl

theorem withLoadAddress_of_has {image : Bytes} (h : [0x00, 0x10] <+: image) :
    withLoadAddress image = image :=
  if_pos (hasLoadAddress_iff.2 h)

theorem withLoadAddress_of_lacks {image : Bytes} (h : ¬ [0x00, 0x10] <+: image) :
    withLoadAddress image = [0x00, 0x10] ++ image :=
  if_neg (mt hasLoadAddress_iff.1 h)

theorem prefix_withLoadAddress (image : Bytes) : [0x00, 0x10] <+: withLoadAddress image :=
  List.prefix_iff_eq_take.2 (take_withLoadAddress image).symm

theorem length_withLoadAddress (image : Bytes) : (withLoadAddress image).length =
    image.length + if [0x00, 0x10] <+: image then 0 else 2 := by
  by_cases h : [0x00, 0x10] <+: image
  · rw [withLoadAddress_of_has h, if_pos h, Nat.add_zero]
  · rw [withLoadAddress_of_lacks h, if_neg h, List.length_append, Nat.add_comm]
    rfl

/-- Two images with their load addresses are the same exactly when the images are, or one of them
is the other behind a load address that it lacks. -/
theorem withLoadAddress_inj {x y : Bytes} : withLoadAddress x = withLoadAddress y ↔
    x = y ∨ (y = [0x00, 0x10] ++ x ∧ ¬ [0x00, 0x10] <+: x) ∨
      (x = [0x00, 0x10] ++ y ∧ ¬ [0x00, 0x10] <+: y) := by
  constructor
  · intro hsame
    by_cases hx : [0x00, 0x10] <+: x <;> by_cases hy : [0x00, 0x10] <+: y
    · rw [withLoadAddress_of_has hx, withLoadAddress_of_has hy] at hsame
      exact .inl hsame
    · rw [withLoadAddress_of_has hx, withLoadAddress_of_lacks hy] at hsame
      exact .inr (.inr ⟨hsame, hy⟩)
    · rw [withLoadAddress_of_lacks hx, withLoadAddress_of_has hy] at hsame
      exact .inr (.inl ⟨hsame.symm, hx⟩)
    · rw [withLoadAddress_of_lacks hx, withLoadAddress_of_lacks hy] at hsame
      exact .inl (List.append_cancel_left hsame)
  · rintro (rfl | ⟨rfl, hlacks⟩ | ⟨rfl, hlacks⟩)
    · rfl
    · rw [withLoadAddress_of_lacks hlacks, withLoadAddress_of_has (List.prefix_append _ _)]
    · rw [withLoadAddress_of_lacks hlacks, withLoadAddress_of_has (List.prefix_append _ _)]

/-- Which images give one file. -/
theorem package_inj {x y : Bytes} {m : Metadata} : package x m = package y m ↔
    x = y ∨ (y = [0x00, 0x10] ++ x ∧ ¬ [0x00, 0x10] <+: x) ∨
      (x = [0x00, 0x10] ++ y ∧ ¬ [0x00, 0x10] <+: y) := by
  rw [package, package, List.append_cancel_left_eq, withLoadAddress_inj]

/-! ### The file -/

/-- The bytes that all packaged files have in common: the magic word, the version, the offset of the
image, no load address, the two entry points, one song, and one call a frame. -/
def fixedStart : Bytes :=
  [0x50, 0x53, 0x49, 0x44, 0x00, 0x02, 0x00, 0x76, 0x00, 0x00, 0x10, 0x00, 0x10, 0x03, 0x00, 0x01,
    0x00, 0x01, 0x00, 0x00, 0x00, 0x00]

theorem encodeNumbers_ofMetadata (m : Metadata) :
    (Header.ofMetadata m).encodeNumbers = fixedStart := by
  change (Header.ofMetadata ⟨"", "", ""⟩).encodeNumbers = fixedStart
  decide

theorem take_package (image : Bytes) (m : Metadata) :
    (package image m).take fixedStart.length = fixedStart := by
  rw [package, Header.encode, encodeNumbers_ofMetadata]
  simp only [List.append_assoc, List.take_left]

theorem length_package (image : Bytes) (m : Metadata) : (package image m).length =
    0x76 + image.length + if [0x00, 0x10] <+: image then 0 else 2 := by
  rw [package, List.length_append, Header.length_encode, length_withLoadAddress, Nat.add_assoc]
  rfl

/-! ### The image of the library -/

section Library

variable {t : Tune}

private theorem head?_jump {symbols : String → Option UInt16} {pc : Nat} {name : String}
    {bytes : Bytes} (h : instruction? symbols pc .jmp (.label name) = some bytes) :
    bytes.head? = some 0x4C := by
  obtain ⟨argument, hresolved, hencoded⟩ := Option.bind_eq_some_iff.1 h
  obtain ⟨addr, -, rfl⟩ := Option.map_eq_some_iff.1 hresolved
  have hjump : encode? .jmp pc (.place .none addr) = some (0x4C :: (Bytes.word addr).reverse) := by
    have hshort : (if inZeroPage addr then opcode? .jmp Index.none.short else none) = none := by
      split <;> rfl
    rw [encode?, access?, hshort]
    rfl
  rw [← Option.some.inj (hjump.symm.trans hencoded)]
  rfl

/-- The image of the library starts with a jump. -/
theorem head?_image {image : Bytes} (hlaidOut : (library t).LaidOut 0x1000 image) :
    image.head? = some 0x4C := by
  have hidle : (heading t "library").all Program.isRemark := rfl
  have hassembled := hlaidOut.assembled
  rw [library_eq, Program.assemble?_eq_some hidle] at hassembled
  obtain ⟨hmade, -, -⟩ := hassembled
  obtain ⟨first, later, hfirst_eq, hlater_eq, rfl⟩ := Program.machineCode?_cons.1 hmade
  obtain ⟨jump, rest, hjump_eq, -, rfl⟩ := Program.machineCode?_cons.1 hlater_eq
  obtain ⟨-, rfl⟩ := Program.bytes?_label.1 hfirst_eq
  rw [List.nil_append, List.head?_append, head?_jump hjump_eq, Option.some_or]

private theorem not_prefix_of_head? {image : Bytes} (h : image.head? = some 0x4C) :
    ¬ [0x00, 0x10] <+: image := by
  rintro ⟨rest, rfl⟩
  cases h

/-- The entry points of the library are where the header says. -/
theorem resolve_entries (hplayable : t.Playable) (m : Metadata) :
    (library t).resolve? "init" = some (Header.ofMetadata m).initAddress ∧
      (library t).resolve? "play" = some (Header.ofMetadata m).playAddress := by
  have hlinked := (carries_library hplayable).toLinked
  have hinit : libraryBody t = [] ++ .label "init" :: .code .jmp (.label setupLabel) ::
      .label "play" :: playBody t := libraryBody_eq t
  have hplay : libraryBody t =
      [.label "init", .code .jmp (.label setupLabel)] ++ .label "play" :: playBody t :=
    libraryBody_eq t
  obtain ⟨addr, hresolved, hvalue⟩ := Program.resolve_label hlinked hinit
  obtain ⟨addr', hresolved', hvalue'⟩ := Program.resolve_label hlinked hplay
  rw [hresolved, hresolved']
  exact ⟨congrArg some (UInt16.toNat_inj.1 hvalue), congrArg some (UInt16.toNat_inj.1 hvalue')⟩

end Library

/-! ### All of it -/

/-- What a packaged file says of itself. -/
structure Consistent (image : Bytes) (m : Metadata) : Prop where
  header : (Header.ofMetadata m).encode.length = 0x76
  data : ∃ data, package image m = (Header.ofMetadata m).encode ++ data ∧ [0x00, 0x10] <+: data
  length : (package image m).length =
    0x76 + image.length + if [0x00, 0x10] <+: image then 0 else 2
  start : (package image m).take 0x16 = fixedStart
  decoded : ∃ texts, Header.decode (package image m) = .ok
    { loadAddress := 0, initAddress := 0x1000, playAddress := 0x1003, songs := 1, startSong := 1,
      speed := 0, metadata := texts }

theorem consistent (image : Bytes) (m : Metadata) : Consistent image m where
  header := Header.length_encode _
  data := ⟨withLoadAddress image, rfl, prefix_withLoadAddress image⟩
  length := length_package image m
  start := take_package image m
  decoded := ⟨_, Header.decode_encode _ _⟩

/-- The library of a tune is what a packaged file says it is, and its image may have its load
address or lack it. -/
structure Packaged (t : Tune) : Prop where
  init : ∀ m, (library t).resolve? "init" = some (Header.ofMetadata m).initAddress
  play : ∀ m, (library t).resolve? "play" = some (Header.ofMetadata m).playAddress
  image : ∃ image, (library t).assemble? (library t).resolve? = some (0x1000, image) ∧
    (∀ symbols out, (library t).assemble? symbols = some out → out = (0x1000, image)) ∧
    image.head? = some 0x4C ∧ ∀ m, package image m = package ([0x00, 0x10] ++ image) m

theorem packaged_of_playable {t : Tune} (hplayable : t.Playable) : Packaged t where
  init m := (resolve_entries hplayable m).1
  play m := (resolve_entries hplayable m).2
  image := by
    obtain ⟨image, hlaidOut⟩ := exists_laidOut_library hplayable
    have hjump := head?_image hlaidOut
    exact ⟨image, hlaidOut.assembled,
      fun symbols out hassembled => (hlaidOut.unique symbols out hassembled).1, hjump,
      fun m => package_inj.2 (.inr (.inl ⟨rfl, not_prefix_of_head? hjump⟩))⟩

/-- **Packaging.** Every packaged file is consistent. Images give one file exactly when they are
equal but for a load address that one of them lacks. The library of every accepted song is what the
file says it is. -/
theorem package_consistent :
    (∀ image m, Consistent image m) ∧
    (∀ x y m, package x m = package y m ↔
      x = y ∨ (y = [0x00, 0x10] ++ x ∧ ¬ [0x00, 0x10] <+: x) ∨
        (x = [0x00, 0x10] ++ y ∧ ¬ [0x00, 0x10] <+: y)) ∧
    ∀ document s, Song.ofJson document = .ok s → Packaged (Tune.ofSong s) :=
  ⟨consistent, fun _ _ _ => package_inj,
    fun _ _ haccepted => packaged_of_playable (Tune.playable_ofJson haccepted)⟩

theorem package_consistent_sampleSong :
    Song.ofJson sampleSong.toJson = .ok sampleSong ∧ Packaged (Tune.ofSong sampleSong) :=
  ⟨ofJson_sampleSong, package_consistent.2.2 _ _ ofJson_sampleSong⟩

end SidTune.Psid
