import SidTune.Proofs.Build.Stale
import SidTune.Proofs.Host.Components

/-!
# When two files of a build would be one

The paths of a build continue the output path in place of its extension, and two paths are one if
their components are. However the output path is written, the packaged file is the output itself
exactly if the extension is `sid`, and no other two of the files are one. If the output path has a
file name, all files are in its directory.

## Main definitions

* `SidTune.Build.InOneDirectory`: paths of files in one directory.

## Main results

* `SidTune.Build.components_eq_iff`: when the output path is the same as a path derived from it.
* `SidTune.Build.conflict?_of_sid`, `SidTune.Build.conflict?_of_ne_sid`: the path that two of the
  files would share.
* `SidTune.Build.conflicts_for_sid`: when a build is refused, and where its files are otherwise.
-/

namespace SidTune.Build

open SidTune.Path

/-! ### Paths that are the same -/

theorem same_iff {p q : Path} : p.same q = true ↔ p.components = q.components :=
  beq_iff_eq

/-- No path is repeated exactly if all of them differ in their components. -/
theorem firstRepeated?_eq_none_iff {paths : List Path} :
    firstRepeated? paths = none ↔ paths.Pairwise fun p q => p.components ≠ q.components := by
  induction paths with
  | nil => simp [firstRepeated?]
  | cons p rest ih =>
    rw [firstRepeated?, List.pairwise_cons, ← ih]
    split
    · next hrepeated =>
      obtain ⟨q, hmem, hsame⟩ := List.any_eq_true.1 hrepeated
      exact iff_of_false (by simp) fun h => h.1 q hmem (same_iff.1 hsame)
    · next hfresh =>
      have hdiffers : ∀ q ∈ rest, p.components ≠ q.components :=
        fun q hmem hsame => hfresh (List.any_eq_true.2 ⟨q, hmem, same_iff.2 hsame⟩)
      exact (and_iff_right hdiffers).symm

/-- A name is its stem and a suffix exactly if the suffix is a point and the extension. -/
theorem eq_stem_append_iff {name rest : List Char} {c : Char} :
    name = (splitExtension name).1 ++ c :: rest ↔
      c = '.' ∧ (splitExtension name).2 = some rest := by
  rcases eq_of_splitExtension name with hsplit | ⟨stem, extension, hsplit, -, -, hwhole⟩
  · rw [hsplit]
    refine iff_of_false (fun hsame => ?_) fun h => nomatch h.2
    have := congrArg List.length hsame
    simp at this
  · rw [hsplit]
    constructor
    · intro hsame
      obtain ⟨hpoint, hext⟩ := List.cons.inj (List.append_cancel_left (hwhole.symm.trans hsame))
      exact ⟨hpoint.symm, congrArg some hext⟩
    · rintro ⟨rfl, hext⟩
      rw [← Option.some.inj hext]
      exact hwhole

section Derived

variable {output : Path} {suffix other : String}

/-- The output path is the same as a path that continues it in place of its extension exactly if
what continues it is a point and its extension. -/
theorem components_eq_iff (hstem : output.fileStem? ≠ some ['.']) (hext : Extends suffix) {c : Char}
    {rest : List Char} (h : suffix.toList = c :: rest) :
    output.components = (ofChars output.withoutExtension suffix).components ↔
      c = '.' ∧ output.extension? = some rest := by
  have hderived := names_ofChars hext output.withoutExtension
  cases hfound : output.fileName? with
  | none =>
    refine iff_of_false (fun hsame => ?_) fun h => by simp [extension?, hfound] at h
    have hnone : (ofChars output.withoutExtension suffix).fileName? = none := by
      rw [← hfound, fileName?, fileName?, hsame]
    exact Option.some_ne_none _ (hderived.fileName?_eq.symm.trans hnone)
  | some name =>
    obtain ⟨above, hnames⟩ := exists_names hfound
    have hstem : (splitExtension name).1 ≠ ['.'] := fun hpoint => hstem (by
      rw [fileStem?, hfound, Option.map_some, hpoint])
    have hcut := hnames.pieces_withoutExtension hstem
    rw [hcut, List.dropLast_concat, lastPiece, hcut, List.getLastD_concat] at hderived
    rw [hnames.components_eq, hderived.components_eq, List.append_cancel_left_eq, List.cons.injEq,
      Component.normal.injEq, and_iff_left rfl, h, eq_stem_append_iff, extension?, hfound,
      Option.bind_some]

private theorem components_ne (hext : Extends suffix) (hext' : Extends other)
    (hapart : suffix ≠ other) (text : List Char) :
    (ofChars text suffix).components ≠ (ofChars text other).components := by
  rw [(names_ofChars hext text).components_eq, (names_ofChars hext' text).components_eq]
  intro hsame
  have hlast := (List.append_inj' hsame rfl).2
  rw [List.cons.injEq, Component.normal.injEq, List.append_cancel_left_eq] at hlast
  exact hapart (String.toList_inj.1 hlast.1)

end Derived

/-! ### Files in one directory -/

/-- All paths have file names in one directory, and the path before the last component is the same
for all of them. -/
def InOneDirectory (paths : List Path) : Prop :=
  ∃ directory components, ∀ p ∈ paths, p.parent? = some directory ∧
    ∃ name, p.components = components ++ [.normal name]

/-- The files of a build are in the directory of the output path. -/
theorem inOneDirectory_ofOutput {output : Path} (hstem : output.fileStem? ≠ some ['.'])
    {name : List Char} (hfound : output.fileName? = some name) :
    InOneDirectory (Artifacts.ofOutput output).paths := by
  obtain ⟨above, hnames⟩ := exists_names hfound
  have hstem : (splitExtension name).1 ≠ ['.'] := fun hpoint => hstem (by
    rw [fileStem?, hfound, Option.map_some, hpoint])
  have hderived {suffix : String} (hext : Extends suffix) :
      ∃ name, Names (ofChars output.withoutExtension suffix) above name := by
    have hderived := names_ofChars hext output.withoutExtension
    rw [hnames.pieces_withoutExtension hstem, List.dropLast_concat] at hderived
    exact ⟨_, hderived⟩
  have hnamed : ∀ p ∈ (Artifacts.ofOutput output).paths, ∃ name, Names p above name := by
    simp only [Artifacts.paths, Artifacts.ofOutput, List.forall_mem_cons]
    exact ⟨⟨name, hnames⟩, hderived extends_library, hderived extends_image,
      hderived extends_packaged, by simp⟩
  refine ⟨directoryPath above, directoryComponents above, fun p hmem => ?_⟩
  obtain ⟨name, hnames⟩ := hnamed p hmem
  exact ⟨hnames.parent?_eq, name, hnames.components_eq⟩

/-! ### Conflicts -/

section Conflicts

variable {output : Path} (hstem : output.fileStem? ≠ some ['.'])

include hstem

/-- If the extension of the output path is `sid`, the packaged file would be the output. -/
theorem conflict?_of_sid (hsid : output.extension? = some "sid".toList) :
    (Artifacts.ofOutput output).conflict? = some output := by
  have hpackaged := components_eq_iff hstem extends_packaged (show _ = '.' :: "sid".toList from rfl)
  have hrepeated : (Artifacts.ofOutput output).paths.tail.any output.same = true :=
    List.any_eq_true.2 ⟨_, .tail _ (.tail _ List.mem_cons_self),
      same_iff.2 (hpackaged.2 ⟨rfl, hsid⟩)⟩
  exact if_pos hrepeated

/-- With any other extension no two files would be one. -/
theorem conflict?_of_ne_sid (hother : output.extension? ≠ some "sid".toList) :
    (Artifacts.ofOutput output).conflict? = none := by
  have hlibrary := components_eq_iff hstem extends_library
    (show _ = '_' :: "sid.asm".toList from rfl)
  have himage := components_eq_iff hstem extends_image (show _ = '_' :: "sid.prg".toList from rfl)
  have hpackaged := components_eq_iff hstem extends_packaged (show _ = '.' :: "sid".toList from rfl)
  -- A derived path is the output only if its suffix is a point and the extension of the output.
  have hfromLibrary := mt hlibrary.1 fun h => absurd h.1 (by decide)
  have hfromImage := mt himage.1 fun h => absurd h.1 (by decide)
  have hfromPackaged := mt hpackaged.1 fun h => hother h.2
  have hderived {suffix suffix' : String} (hext : Extends suffix) (hext' : Extends suffix')
      (hapart : suffix ≠ suffix') := components_ne hext hext' hapart output.withoutExtension
  rw [Artifacts.conflict?, firstRepeated?_eq_none_iff]
  simp only [Artifacts.paths, Artifacts.ofOutput, List.pairwise_cons, List.forall_mem_cons,
    List.not_mem_nil, false_imp_iff, implies_true, List.Pairwise.nil, and_true]
  exact ⟨⟨hfromLibrary, hfromImage, hfromPackaged⟩,
    ⟨hderived extends_library extends_image (by decide),
      hderived extends_library extends_packaged (by decide)⟩,
    hderived extends_image extends_packaged (by decide)⟩

end Conflicts

/-- **When two files of a build would be one.** Unless the stem of its file name is a single point,
an output path is refused exactly if its extension is `sid`, and then it is the path that is
reported; otherwise the four paths are different. If there is a file name, all four files are in one
directory. -/
theorem conflicts_for_sid (output : Path) (hstem : output.fileStem? ≠ some ['.']) :
    ((∃ failure, (Artifacts.ofOutput output).ensureDistinct = .error failure) ↔
      output.extension? = some "sid".toList) ∧
    (∀ failure, (Artifacts.ofOutput output).ensureDistinct = .error failure →
      failure = .sharedPath output) ∧
    ((Artifacts.ofOutput output).ensureDistinct = .ok () →
      (Artifacts.ofOutput output).paths.Pairwise fun p q => p.components ≠ q.components) ∧
    (output.fileName? ≠ none → InOneDirectory (Artifacts.ofOutput output).paths) := by
  have htogether (hnamed : output.fileName? ≠ none) :
      InOneDirectory (Artifacts.ofOutput output).paths := by
    obtain ⟨name, hfound⟩ := Option.ne_none_iff_exists'.1 hnamed
    exact inOneDirectory_ofOutput hstem hfound
  by_cases hsid : output.extension? = some "sid".toList
  · have hrefused : (Artifacts.ofOutput output).ensureDistinct = .error (.sharedPath output) := by
      rw [Artifacts.ensureDistinct, conflict?_of_sid hstem hsid]
    rw [hrefused]
    exact ⟨iff_of_true ⟨_, rfl⟩ hsid, fun _ hsame => (Except.error.inj hsame).symm, by simp,
      htogether⟩
  · have hdistinct := conflict?_of_ne_sid hstem hsid
    have haccepted : (Artifacts.ofOutput output).ensureDistinct = .ok () := by
      rw [Artifacts.ensureDistinct, hdistinct]
    rw [haccepted]
    exact ⟨iff_of_false (by simp) hsid, by simp,
      fun _ => firstRepeated?_eq_none_iff.1 hdistinct, htogether⟩

/-- A path with slashes that say nothing and an extension before the last. -/
theorem conflicts_for_sid_spelled :
    (Path.mk "./out//theme.asm.sid/.").fileStem? ≠ some ['.'] ∧
      (Artifacts.ofOutput ⟨"./out//theme.asm.sid/."⟩).ensureDistinct =
        .error (.sharedPath ⟨"./out//theme.asm.sid/."⟩) ∧
      InOneDirectory (Artifacts.ofOutput ⟨"./out//theme.asm.sid/."⟩).paths := by
  have hstem : (Path.mk "./out//theme.asm.sid/.").fileStem? ≠ some ['.'] := by decide
  obtain ⟨hrefused, hreported, -, htogether⟩ := conflicts_for_sid _ hstem
  obtain ⟨failure, herror⟩ := hrefused.2 (by decide)
  exact ⟨hstem, (hreported failure herror) ▸ herror, htogether (by decide)⟩

end SidTune.Build
