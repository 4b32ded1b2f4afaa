import Mathlib.Data.List.DropRight
import SidTune.Proofs.Host.Names

/-!
# Components of paths with a file name

A path with a file name is written as the pieces of a directory, the name, and perhaps idle pieces
after it. Its components are those of the directory and the name, and the path before its last
component is that of the directory, however it is written. What continues a text by a suffix has a
file name, too.

## Main definitions

* `SidTune.Path.Names`: a path names something in a directory.
* `SidTune.Path.directoryComponents`, `SidTune.Path.directoryPath`: the components of a directory,
  and its path.
* `SidTune.Path.fileStem?`, `SidTune.Path.extension?`: the parts of the file name.

## Main results

* `SidTune.Path.exists_names`: every path with a file name names something.
* `SidTune.Path.Names.components_eq`, `SidTune.Path.Names.parent?_eq`: what it names.
* `SidTune.Path.Names.pieces_withoutExtension`: without its extension it leads there, too.
* `SidTune.Path.eq_of_splitExtension`: a file name is its stem and, after a point, its extension.
-/

namespace SidTune.Path

variable {p : Path} {above : List (List Char)} {name : List Char}

/-! ### Pieces -/

theorem pieces_append_slash {first : List Char} (hslashless : '/' ∉ first) (rest : List Char) :
    pieces (first ++ '/' :: rest) = first :: pieces rest := by
  induction first with
  | nil => rw [List.nil_append, pieces_cons, if_pos rfl]
  | cons c first ih =>
    rw [List.mem_cons, not_or] at hslashless
    have hcut := List.cons.inj (ih hslashless.2)
    rw [List.cons_append, pieces_cons, if_neg (Ne.symm hslashless.1), hcut.1, hcut.2]

theorem pieces_joined {first : List Char} {others : List (List Char)}
    (hslashless : ∀ piece ∈ first :: others, '/' ∉ piece) :
    pieces (joined first others) = first :: others := by
  induction others generalizing first with
  | nil =>
    rw [joined, List.flatMap_nil, List.append_nil, pieces,
      slices_of_not_mem (hslashless first List.mem_cons_self)]
  | cons next others ih =>
    rw [List.forall_mem_cons] at hslashless
    have hjoined_eq : joined first (next :: others) = first ++ '/' :: joined next others := by
      simp [joined]
    rw [hjoined_eq, pieces_append_slash hslashless.1, ih hslashless.2]

theorem dropIdle_eq (pieces : List (List Char)) : dropIdle pieces = pieces.rdropWhile isIdle := rfl

/-- All pieces say nothing if none is left. -/
theorem dropIdle_eq_nil_iff {pieces : List (List Char)} :
    dropIdle pieces = [] ↔ ∀ piece ∈ pieces, isIdle piece = true := by
  rw [dropIdle_eq, List.rdropWhile_eq_nil_iff]

private theorem exists_dropIdle (pieces : List (List Char)) :
    ∃ idle, (∀ piece ∈ idle, isIdle piece = true) ∧ pieces = dropIdle pieces ++ idle := by
  refine ⟨pieces.rtakeWhile isIdle, fun _ => List.mem_rtakeWhile_imp, ?_⟩
  rw [dropIdle_eq, List.rdropWhile_append_rtakeWhile]

private theorem dropIdle_getLast {pieces : List (List Char)} (h : dropIdle pieces ≠ []) :
    isIdle ((dropIdle pieces).getLast h) = false :=
  Bool.eq_false_iff.2 (List.rdropWhile_last_not isIdle pieces h)

theorem dropIdle_name (hnamed : IsName name) {idle : List (List Char)}
    (hsilent : ∀ piece ∈ idle, isIdle piece = true) :
    dropIdle (above ++ name :: idle) = above ++ [name] := by
  have hnone : idle.reverse.dropWhile isIdle = [] := by
    rw [List.dropWhile_eq_nil_iff]
    exact fun piece hmem => hsilent piece (List.mem_reverse.1 hmem)
  simp [dropIdle, List.dropWhile_append, hnone, hnamed.visible]

/-! ### Components -/

theorem filterMap_idle {idle : List (List Char)}
    (hsilent : ∀ piece ∈ idle, isIdle piece = true) :
    idle.filterMap Component.ofPiece? = [] := by
  rw [List.filterMap_eq_nil_iff]
  intro piece hmem
  rw [Component.ofPiece?, if_pos (hsilent piece hmem)]

private theorem ofPiece?_eq_normal {piece : List Char} :
    Component.ofPiece? piece = some (.normal name) ↔ piece = name ∧ IsName piece := by
  rw [Component.ofPiece?]
  split
  · next hidle => exact iff_of_false (by simp) fun h => by simp [h.2.visible] at hidle
  · next hvisible =>
    split
    · next hproper => exact iff_of_false (by simp) fun h => h.2.proper hproper
    · next hproper =>
      simp only [Option.some.injEq, Component.normal.injEq]
      exact ⟨fun hsame => ⟨hsame, Bool.eq_false_iff.2 hvisible, hproper⟩, And.left⟩

/-- Whatever follows a slash, it matters for the start of a path only that there is one. -/
theorem start_of_ne_nil {first : List Char} {others : List (List Char)} (h : others ≠ []) :
    start first others = start first [[]] := by
  simp [start, h]

/-- A path that starts with a name has it as its first component. -/
theorem start_of_isName (hnamed : IsName name) (others : List (List Char)) :
    start name others = [.normal name] := by
  have hvisible := hnamed.visible
  have hne_nil : name ≠ [] := fun hnil => by simp [hnil, isIdle] at hvisible
  have hne_point : name ≠ ['.'] := fun hpoint => by simp [hpoint, isIdle] at hvisible
  rw [start, if_neg fun h => hne_nil h.1, if_neg hne_point, hnamed.ofPiece?, Option.toList_some]

/-- The components of the directory with given pieces. -/
def directoryComponents : List (List Char) → List Component
  | [] => []
  | first :: middle => start first [[]] ++ middle.filterMap Component.ofPiece?

/-- The path of the directory with given pieces. -/
def directoryPath : List (List Char) → Path
  | [] => ⟨""⟩
  | first :: middle =>
    match dropIdle middle with
    | [] => ⟨if start first [[]] = [.root] then "/" else String.ofList first⟩
    | middle => ⟨String.ofList (joined first middle)⟩

/-- A path names something in a directory: after the pieces of the directory it has the name, and
then only pieces that say nothing. -/
structure Names (p : Path) (above : List (List Char)) (name : List Char) : Prop where
  cut : ∃ idle, (∀ piece ∈ idle, isIdle piece = true) ∧
    pieces p.text.toList = above ++ name :: idle
  named : IsName name

/-- Every path with a file name names something. -/
theorem exists_names (h : p.fileName? = some name) : ∃ above, Names p above name := by
  obtain ⟨idle, hsilent, hothers⟩ := exists_dropIdle (slices p.text.toList).2
  have hlast : p.components.getLast? = some (.normal name) := by
    unfold fileName? at h
    split at h
    · next hfound =>
      rw [hfound, Option.some.inj h]
    · cases h
  rw [components] at hlast
  dsimp only at hlast
  by_cases hnone : dropIdle (slices p.text.toList).2 = []
  · rw [dropIdle_eq_nil_iff] at hnone
    rw [filterMap_idle hnone, List.append_nil, start] at hlast
    split at hlast
    · cases hlast
    · split at hlast
      · cases hlast
      · cases hpiece : Component.ofPiece? (slices p.text.toList).1 with
        | none => simp [hpiece] at hlast
        | some c =>
          simp only [hpiece, Option.toList_some, List.getLast?_singleton, Option.some.injEq]
            at hlast
          obtain ⟨hfirst, hnamed⟩ := ofPiece?_eq_normal.1 (hlast ▸ hpiece)
          exact ⟨[], ⟨_, hnone, by rw [pieces, hfirst, List.nil_append]⟩, hfirst ▸ hnamed⟩
  · have hvisible := dropIdle_getLast hnone
    obtain ⟨middle, final, hsplit⟩ : ∃ middle final, dropIdle (slices p.text.toList).2 =
        middle ++ [final] := ⟨_, _, (List.dropLast_concat_getLast hnone).symm⟩
    simp only [hsplit, List.getLast_concat] at hvisible
    have hpiece : Component.ofPiece? final = some (.normal name) := by
      rw [hothers, hsplit, List.filterMap_append, filterMap_idle hsilent, List.append_nil,
        List.filterMap_append, ← List.append_assoc] at hlast
      cases hfound : Component.ofPiece? final with
      | none => simp [Component.ofPiece?, hvisible] at hfound; split at hfound <;> cases hfound
      | some c => simpa [hfound] using hlast
    obtain ⟨rfl, hnamed⟩ := ofPiece?_eq_normal.1 hpiece
    refine ⟨(slices p.text.toList).1 :: middle, ⟨idle, hsilent, ?_⟩, hnamed⟩
    rw [pieces, hothers, hsplit]
    simp

namespace Names

/-- The components of a path with a file name are those of the directory and the name. -/
theorem components_eq (h : Names p above name) :
    p.components = directoryComponents above ++ [.normal name] := by
  obtain ⟨⟨idle, hsilent, hcut⟩, hnamed⟩ := h
  rw [components]
  cases above with
  | nil =>
    obtain ⟨hfirst, hothers⟩ := List.cons.inj hcut
    simp only [hfirst, hothers, start_of_isName hnamed, filterMap_idle hsilent, directoryComponents,
      List.append_nil, List.nil_append]
  | cons piece middle =>
    obtain ⟨hfirst, hothers⟩ := List.cons.inj hcut
    simp [hfirst, hothers, start_of_ne_nil, filterMap_idle hsilent, directoryComponents,
      hnamed.ofPiece?]

theorem fileName?_eq (h : Names p above name) : p.fileName? = some name := by
  simp [fileName?, h.components_eq]

/-- The path before its last component is that of the directory. -/
theorem parent?_eq (h : Names p above name) : p.parent? = some (directoryPath above) := by
  obtain ⟨⟨idle, hsilent, hcut⟩, hnamed⟩ := h
  cases above with
  | nil =>
    obtain ⟨hfirst, hothers⟩ := List.cons.inj hcut
    have hnone : dropIdle idle = [] := dropIdle_eq_nil_iff.2 hsilent
    simp [parent?, hfirst, hothers, start_of_isName hnamed, hnone, directoryPath]
  | cons piece middle =>
    obtain ⟨hfirst, hothers⟩ := List.cons.inj hcut
    have hothers : (slices p.text.toList).2 = middle ++ name :: idle := hothers
    have hleft : dropIdle (middle ++ name :: idle) = middle ++ [name] :=
      dropIdle_name hnamed hsilent
    have hopening : start piece (middle ++ name :: idle) = start piece [[]] :=
      start_of_ne_nil (by simp)
    obtain ⟨head, rest, hsignificant⟩ : ∃ head rest, middle ++ [name] = head :: rest :=
      List.exists_cons_of_ne_nil (by simp)
    have hbefore : (head :: rest).dropLast = middle := by rw [← hsignificant, List.dropLast_concat]
    simp only [parent?, hfirst, hothers, hleft, hopening, hsignificant, hbefore, directoryPath]
    cases dropIdle middle <;> rfl

/-- Without its extension a path leads through the pieces of the directory to its stem, unless that
is a single point. -/
theorem pieces_withoutExtension (h : Names p above name) (hstem : (splitExtension name).1 ≠ ['.']) :
    pieces p.withoutExtension = above ++ [(splitExtension name).1] := by
  have hfound := h.fileName?_eq
  obtain ⟨⟨idle, hsilent, hcut⟩, hnamed⟩ := h
  have hslashless : ∀ piece ∈ above ++ name :: idle, '/' ∉ piece :=
    fun piece hmem => slashless_of_mem_pieces (hcut ▸ hmem)
  have hwithout : p.withoutExtension = p.beforeName ++ (splitExtension name).1 := by
    simp only [withoutExtension, hfound]
    split
    · next hsplit => exact absurd (congrArg Prod.fst hsplit) hstem
    · next hsplit => rw [hsplit]
  have hslashless_stem : '/' ∉ (splitExtension name).1 :=
    slashless_splitExtension (hslashless name (by simp))
  rw [hwithout]
  cases above with
  | nil =>
    obtain ⟨hfirst, hothers⟩ := List.cons.inj hcut
    have hnone : dropIdle idle = [] := dropIdle_eq_nil_iff.2 hsilent
    simp [beforeName, hothers, hnone, pieces, slices_of_not_mem hslashless_stem]
  | cons piece middle =>
    obtain ⟨hfirst, hothers⟩ := List.cons.inj hcut
    have hleft : dropIdle (middle ++ name :: idle) = middle ++ [name] :=
      dropIdle_name hnamed hsilent
    have hbefore : p.beforeName ++ (splitExtension name).1 =
        joined piece (middle ++ [(splitExtension name).1]) := by
      simp [beforeName, hfirst, hothers, hleft, joined]
    rw [hbefore, pieces_joined, List.cons_append]
    intro other hmem
    rcases List.mem_append.1 (List.cons_append ▸ hmem) with hmem | hmem
    · exact hslashless other (List.mem_append_left _ hmem)
    · rwa [List.mem_singleton.1 hmem]

end Names

/-- A suffix makes every text that it continues a name. -/
theorem Extends.isName {suffix : String} (hext : Extends suffix) (text : List Char) :
    IsName (text ++ suffix.toList) := by
  have hlong := hext.long
  have hother (short : List Char) (h : short.length < 3) : text ++ suffix.toList ≠ short := by
    rintro rfl
    rw [List.length_append] at h
    omega
  exact ⟨by simp only [isIdle, hother [] (by decide), hother ['.'] (by decide), decide_false,
    Bool.or_self], hother _ (by decide)⟩

theorem names_ofChars {suffix : String} (hext : Extends suffix) (text : List Char) :
    Names (ofChars text suffix) (pieces text).dropLast (lastPiece text ++ suffix.toList) := by
  refine ⟨⟨[], by simp, ?_⟩, hext.isName _⟩
  rw [ofChars, String.toList_ofList, pieces_append hext.slashless]

/-! ### Extensions -/

/-- The file name without its extension. -/
def fileStem? (p : Path) : Option (List Char) :=
  p.fileName?.map fun name => (splitExtension name).1

/-- The extension of the file name. -/
def extension? (p : Path) : Option (List Char) :=
  p.fileName?.bind fun name => (splitExtension name).2

/-- A file name is its stem and, if there is one, a point and its extension, which has none. -/
theorem eq_of_splitExtension (name : List Char) :
    splitExtension name = (name, none) ∨
      ∃ stem extension, splitExtension name = (stem, some extension) ∧ stem ≠ [] ∧
        '.' ∉ extension ∧ name = stem ++ '.' :: extension := by
  have hparts : name.rdropWhile (· ≠ '.') ++ name.rtakeWhile (· ≠ '.') = name :=
    List.rdropWhile_append_rtakeWhile
  have hunfolded : splitExtension name =
      if (name.rtakeWhile (· ≠ '.')).length = name.length ∨
          name.take (name.length - (name.rtakeWhile (· ≠ '.')).length - 1) = [] then (name, none)
      else (name.take (name.length - (name.rtakeWhile (· ≠ '.')).length - 1),
        some (name.rtakeWhile (· ≠ '.'))) := rfl
  have hpointless : '.' ∉ name.rtakeWhile (· ≠ '.') :=
    fun hmem => by simpa using List.mem_rtakeWhile_imp hmem
  rw [hunfolded]
  by_cases hnone : name.rdropWhile (· ≠ '.') = []
  · rw [hnone, List.nil_append] at hparts
    exact .inl (if_pos (.inl (congrArg List.length hparts)))
  · have hpoint := List.rdropWhile_last_not (· ≠ '.') name hnone
    obtain ⟨stem, last, hfront⟩ : ∃ stem last, name.rdropWhile (· ≠ '.') = stem ++ [last] :=
      ⟨_, _, (List.dropLast_concat_getLast hnone).symm⟩
    simp only [hfront, List.getLast_concat, decide_eq_true_eq, not_not] at hpoint
    generalize name.rtakeWhile (· ≠ '.') = extension at hparts hpointless ⊢
    rw [hfront, hpoint, List.append_assoc] at hparts
    subst hparts
    have htaken : (stem ++ (['.'] ++ extension)).take
        ((stem ++ (['.'] ++ extension)).length - extension.length - 1) = stem :=
      List.take_left' (by simp only [List.length_append, List.length_singleton]; omega)
    rw [htaken]
    by_cases hempty : stem = []
    · exact .inl (if_pos (.inr hempty))
    · refine .inr ⟨stem, extension, if_neg (not_or.2 ⟨?_, hempty⟩), hempty, hpointless, rfl⟩
      simp only [List.length_append, List.length_singleton]
      omega

end SidTune.Path
