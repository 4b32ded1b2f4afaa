import SidTune.Proofs.Host.Disk

/-!
# Paths that end with a name

A path that leads to a name in a directory is written as the pieces that lead to the directory and
the name. Without its extension it leads through the same pieces. So what continues it in place of
its extension leads to another name in the same directory, unless it is the same path.

## Main definitions

* `SidTune.Path.IsName`: pieces that are names.

## Main results

* `SidTune.Disk.Leads.pieces_eq`: the pieces of a path that leads to a name.
* `SidTune.Disk.Leads.directory_eq`, `SidTune.Disk.Leads.name_ne`: where a path leads that has
  another suffix in place of the extension.
-/

namespace SidTune

namespace Path

/-- A piece of a path that is a name. -/
structure IsName (piece : List Char) : Prop where
  visible : isIdle piece = false
  proper : piece ≠ ['.', '.']

theorem IsName.ofPiece? {piece : List Char} (hnamed : IsName piece) :
    Component.ofPiece? piece = some (.normal piece) := by
  simp [Component.ofPiece?, hnamed.visible, hnamed.proper]

variable {p : Path} {above : List (List Char)} {last : List Char}

private theorem dropIdle_concat (hnamed : IsName last) :
    dropIdle (above ++ [last]) = above ++ [last] := by
  simp [dropIdle, hnamed.visible]

/-- A name at the end of a path is its file name, and the text before it is that before the file
name. -/
theorem fileName?_of_pieces (hcut : pieces p.text.toList = above ++ [last]) (hnamed : IsName last) :
    p.fileName? = some last ∧ p.beforeName ++ last = p.text.toList := by
  have htext := joined_slices p.text.toList
  unfold pieces at hcut
  cases above with
  | nil =>
    obtain ⟨hfirst, hothers⟩ := List.cons.inj hcut
    have hvisible : last ≠ ['.'] := fun hpoint => by simpa [hpoint, isIdle] using hnamed.visible
    rw [hfirst, hothers] at htext
    constructor
    · simp [fileName?, components, start, hfirst, hothers, hvisible, hnamed.ofPiece?]
    · rw [← htext]
      simp [beforeName, hothers, dropIdle, joined]
  | cons piece middle =>
    obtain ⟨hfirst, hothers⟩ := List.cons.inj hcut
    rw [hfirst, hothers] at htext
    constructor
    · simp [fileName?, components, hothers, hnamed.ofPiece?]
    · rw [← htext]
      simp [beforeName, hfirst, hothers, dropIdle_concat hnamed, joined]

theorem slashless_splitExtension {name : List Char} (hslashless : '/' ∉ name) :
    '/' ∉ (splitExtension name).1 := by
  unfold splitExtension
  dsimp only
  split
  · exact hslashless
  · exact fun hmem => hslashless (List.mem_of_mem_take hmem)

/-- Without its extension a path still has the text before its file name. -/
theorem exists_withoutExtension (hcut : pieces p.text.toList = above ++ [last])
    (hnamed : IsName last) (hslashless : '/' ∉ last) :
    ∃ stem, '/' ∉ stem ∧ p.withoutExtension = p.beforeName ++ stem := by
  obtain ⟨hfound, htext⟩ := fileName?_of_pieces hcut hnamed
  have hsplit := slashless_splitExtension hslashless
  simp only [withoutExtension, hfound, htext, if_true]
  split
  · exact ⟨['.', '.'], by decide, rfl⟩
  · next stem _ _ hsplits =>
    rw [hsplits] at hsplit
    exact ⟨stem, hsplit, rfl⟩

theorem slashless_of_mem_pieces {text piece : List Char} (hmem : piece ∈ pieces text) :
    '/' ∉ piece := by
  induction text generalizing piece with
  | nil => simp_all [pieces, slices]
  | cons c text ih =>
    rw [pieces_cons] at hmem
    split at hmem
    · rcases List.mem_cons.1 hmem with rfl | hmem
      · simp
      · exact ih hmem
    · next hletter =>
      rcases List.mem_cons.1 hmem with rfl | hmem
      · have := ih (List.mem_cons_self : (slices text).1 ∈ pieces text)
        simp [this, Ne.symm hletter]
      · exact ih (List.mem_cons_of_mem _ hmem)

/-- Without its extension a path leads through the same pieces. -/
theorem dropLast_pieces_withoutExtension (hcut : pieces p.text.toList = above ++ [last])
    (hnamed : IsName last) : (pieces p.withoutExtension).dropLast = above := by
  have hslashless : '/' ∉ last := slashless_of_mem_pieces (hcut ▸ List.mem_concat_self)
  obtain ⟨stem, hslashless', hstem_eq⟩ := exists_withoutExtension hcut hnamed hslashless
  have htext := (fileName?_of_pieces hcut hnamed).2
  rw [← htext, pieces_append hslashless] at hcut
  rw [hstem_eq, pieces_append hslashless', List.dropLast_concat]
  exact (List.append_inj' hcut rfl).1

theorem pieces_inj {text text' : List Char} (hsame : pieces text = pieces text') :
    text = text' := by
  obtain ⟨hfirst, hothers⟩ := List.cons.inj hsame
  rw [← joined_slices text, hfirst, hothers, joined_slices]

end Path

namespace Disk

open SidTune.Path

variable {d : Disk} {working : Location} {p : Path} {directory : Location} {name : String}

/-- A path that leads to a name ends with it, and its other pieces lead to the directory. -/
theorem Leads.pieces_eq (hleads : d.Leads working p directory name) :
    ∃ above, pieces p.text.toList = above ++ [name.toList] ∧ IsName name.toList ∧
      d.walk (if above.head? = some [] then [] else working) above = .ok directory := by
  have htarget := hleads.target
  have hsliced : (slices p.text.toList).1 :: (slices p.text.toList).2 = pieces p.text.toList := rfl
  obtain ⟨above, last, hcut⟩ : ∃ above last, pieces p.text.toList = above ++ [last] :=
    ⟨_, _, (List.dropLast_concat_getLast (List.cons_ne_nil _ _)).symm⟩
  simp only [Disk.target, hsliced] at htarget
  split at htarget
  · cases htarget
  split at htarget
  · cases htarget
  split at htarget
  · cases htarget
  by_cases hempty : last = []
  · -- A slash at the end asks for a directory.
    have hslash : ((pieces p.text.toList).getLast? == some []) = true := by simp [hcut, hempty]
    rw [hslash] at htarget
    split at htarget
    · cases htarget
    · split at htarget
      · obtain ⟨_, -, hsame⟩ := Except.map_eq_ok.1 htarget
        cases hsame
      · obtain ⟨_, -, hsame⟩ := Except.map_eq_ok.1 htarget
        cases hsame
  have hsignificant : ((pieces p.text.toList).reverse.dropWhile (· = [])).reverse =
      above ++ [last] := by
    simp [hcut, hempty]
  simp only [hsignificant, List.getLast?_concat, List.dropLast_concat] at htarget
  split at htarget
  · obtain ⟨_, -, hsame⟩ := Except.map_eq_ok.1 htarget
    cases hsame
  · next hpoints =>
    rw [not_or] at hpoints
    obtain ⟨place, hwalked, hsame⟩ := Except.map_eq_ok.1 htarget
    simp only [Target.mk.injEq, Option.some.injEq] at hsame
    obtain ⟨rfl, rfl, -⟩ := hsame
    simp only [isRooted_iff_head? hcut] at hwalked
    refine ⟨above, ?_, ⟨?_, ?_⟩, hwalked⟩
    · rw [hcut, String.toList_ofList]
    · simp [isIdle, hempty, hpoints.1]
    · simpa using hpoints.2

/-- A path and what continues it in place of its extension lead to names in one directory. -/
theorem Leads.directory_eq {suffix : String} {directory' : Location} {name' : String}
    (hleads : d.Leads working p directory name) (hext : Extends suffix)
    (hleads' : d.Leads working (Path.ofChars p.withoutExtension suffix) directory' name') :
    directory' = directory := by
  obtain ⟨above, hcut, hnamed, hwalked⟩ := hleads.pieces_eq
  have hfound := (hleads'.name_eq hext).1
  simp only [stemDirectory, dropLast_pieces_withoutExtension hcut hnamed] at hfound
  exact Except.ok.inj (hfound.symm.trans hwalked)

/-- Different paths lead to different names, if one continues the other in place of its
extension. -/
theorem Leads.name_ne {suffix : String} {directory' : Location} {name' : String}
    (hleads : d.Leads working p directory name) (hext : Extends suffix)
    (hleads' : d.Leads working (Path.ofChars p.withoutExtension suffix) directory' name')
    (hapart : p ≠ Path.ofChars p.withoutExtension suffix) : name ≠ name' := by
  obtain ⟨above, hcut, hnamed, -⟩ := hleads.pieces_eq
  rintro rfl
  have hcut' : pieces (p.withoutExtension ++ suffix.toList) = above ++ [name.toList] := by
    rw [pieces_append hext.slashless, dropLast_pieces_withoutExtension hcut hnamed,
      (hleads'.name_eq hext).2, continued, String.toList_ofList]
  refine hapart ?_
  rw [Path.ofChars, ← pieces_inj (hcut.trans hcut'.symm), String.ofList_toList]

end Disk

end SidTune
