import SidTune.Host.Basic
import SidTune.Proofs.Basic

/-!
# Places on a disk

Where a path leads depends on the directories that it passes only. So a path leads to the same place
on two disks that have the same directories, and paths that continue one text by different suffixes
lead to different names in one directory. From that follows what an operation on one path leaves to
another.

## Main definitions

* `SidTune.Path.Extends`: suffixes that continue a file name.
* `SidTune.Disk.Leads`: a path leads to a name in a directory.
* `SidTune.Disk.SameOff`: disks that differ at one place at most.

## Main results

* `SidTune.Disk.Leads.ofChars`: paths with one stem lead to names in one directory.
* `SidTune.Disk.Leads.mono`: a path leads to the same place on a disk with the same directories.
* `SidTune.Disk.exists_of_write`, `SidTune.Disk.exists_of_remove`: what an operation does.
-/

namespace SidTune

/-! ### Paths with one stem -/

namespace Path

/-- A suffix continues a file name: it has no slash and no zero, and is no shorter than three
characters, so that what it continues is not a name of points alone. -/
structure Extends (suffix : String) : Prop where
  slashless : '/' ∉ suffix.toList
  zeroless : '\x00' ∉ suffix.toList
  long : 3 ≤ suffix.toList.length

theorem slices_of_not_mem {text : List Char} (hslashless : '/' ∉ text) :
    slices text = (text, []) := by
  induction text with
  | nil => rfl
  | cons c rest ih =>
    rw [List.mem_cons, not_or] at hslashless
    simp [slices, ih hslashless.2, Ne.symm hslashless.1]

private theorem head?_components (first : List Char) (others : List (List Char)) :
    (start first others ++ others.filterMap Component.ofPiece?).head? = some .root ↔
      first = [] ∧ others ≠ [] := by
  simp only [start]
  split
  · next hroot => simp [hroot]
  · next hroot =>
    refine iff_of_false (fun hhead => ?_) hroot
    split at hhead
    · cases hhead
    · next hcurrent =>
      by_cases hempty : first = []
      · have hnone : others = [] := Classical.not_not.1 fun h => hroot ⟨hempty, h⟩
        simp [hempty, hnone, Component.ofPiece?, isIdle] at hhead
      · by_cases hparent : first = ['.', '.'] <;>
          simp [Component.ofPiece?, isIdle, hempty, hcurrent, hparent] at hhead

private theorem isRooted_iff {p : Path} :
    p.isRooted ↔ (slices p.text.toList).1 = [] ∧ (slices p.text.toList).2 ≠ [] := by
  rw [isRooted, beq_iff_eq]
  exact head?_components _ _

/-- The pieces of a text between slashes. -/
def pieces (text : List Char) : List (List Char) :=
  (slices text).1 :: (slices text).2

/-- The piece of a text that is continued by what follows the text. -/
def lastPiece (text : List Char) : List Char :=
  (pieces text).getLastD []

theorem pieces_cons (c : Char) (text : List Char) : pieces (c :: text) =
    if c = '/' then [] :: pieces text else (c :: (slices text).1) :: (slices text).2 := by
  by_cases hslash : c = '/' <;> simp [pieces, slices, hslash]

theorem pieces_append {stem suffix : List Char} (hslashless : '/' ∉ suffix) :
    pieces (stem ++ suffix) = (pieces stem).dropLast ++ [lastPiece stem ++ suffix] := by
  induction stem with
  | nil => simp [pieces, lastPiece, slices_of_not_mem hslashless, slices]
  | cons c stem ih =>
    unfold lastPiece at ih ⊢
    rw [List.cons_append, pieces_cons, pieces_cons]
    split
    · rw [ih]
      simp [pieces]
    · unfold pieces at ih
      cases hothers : (slices stem).2 <;> simp_all

theorem isRooted_iff_head? {p : Path} {above : List (List Char)} {last : List Char}
    (hcut : pieces p.text.toList = above ++ [last]) : p.isRooted ↔ above.head? = some [] := by
  rw [isRooted_iff]
  cases above with
  | nil =>
    obtain ⟨-, hothers⟩ := List.cons.inj hcut
    simp [hothers]
  | cons piece middle =>
    obtain ⟨hfirst, hothers⟩ := List.cons.inj hcut
    simp [hfirst, hothers]

end Path

namespace Disk

open SidTune.Path

variable {d d' : Disk} {working : Location} {p : Path}

/-! ### Where a path leads -/

/-- A path leads to a name in a directory, and there may be something of that name. -/
structure Leads (d : Disk) (working : Location) (p : Path) (directory : Location) (name : String) :
    Prop where
  target : d.target working p = .ok ⟨directory, some name, false⟩
  fits : name.utf8ByteSize ≤ nameLimit

section Stem

variable {stem : List Char} {suffix other : String}

/-- The name that is written where a stem is continued by a suffix. -/
def continued (stem : List Char) (suffix : String) : String :=
  String.ofList (lastPiece stem ++ suffix.toList)

/-- Where the paths of one stem lead to names. -/
def stemDirectory (d : Disk) (working : Location) (stem : List Char) : Except OsError Location :=
  let above := (pieces stem).dropLast
  d.walk (if above.head? = some [] then [] else working) above

/-- Where a path of a stem leads. -/
theorem target_ofChars (hext : Extends suffix) :
    d.target working (ofChars stem suffix) =
      if stem.contains '\x00' then .error .zeroInPath
      else if pathLimit < (String.ofList stem).utf8ByteSize + suffix.utf8ByteSize then
        .error .nameTooLong
      else (d.stemDirectory working stem).map fun place =>
        ⟨place, some (continued stem suffix), false⟩ := by
  have hlong := hext.long
  have hcut : pieces (stem ++ suffix.toList) = _ := pieces_append hext.slashless
  have htext : (ofChars stem suffix).text = String.ofList (stem ++ suffix.toList) := rfl
  have hzero : hasZero (String.ofList (stem ++ suffix.toList)) = stem.contains '\x00' := by
    have := hext.zeroless
    simp [hasZero, this]
  have hsize : (String.ofList (stem ++ suffix.toList)).utf8ByteSize =
      (String.ofList stem).utf8ByteSize + suffix.utf8ByteSize := by
    rw [String.ofList_append, String.ofList_toList, String.utf8ByteSize_append]
  have hnonempty : String.ofList (stem ++ suffix.toList) ≠ "" := by
    intro hempty
    have := congrArg (fun s => s.toList.length) hempty
    simp only [String.toList_ofList, List.length_append, String.toList_empty,
      List.length_nil] at this
    omega
  have hrooted : (ofChars stem suffix).isRooted ↔ (pieces stem).dropLast.head? = some [] :=
    isRooted_iff_head? (by rw [htext, String.toList_ofList, hcut])
  have hvisible : lastPiece stem ++ suffix.toList ≠ [] := by
    rw [← List.length_pos_iff, List.length_append]
    omega
  have hnamed (points : List Char) (hshort : points.length < 3) :
      lastPiece stem ++ suffix.toList ≠ points := by
    intro hsame
    have := congrArg List.length hsame
    rw [List.length_append] at this
    omega
  have hsignificant : ((pieces (stem ++ suffix.toList)).reverse.dropWhile (· = [])).reverse =
      pieces (stem ++ suffix.toList) := by
    rw [hcut]
    simp [hvisible]
  have hslash : (some (lastPiece stem ++ suffix.toList) == some []) = false := by
    simpa using hvisible
  have hsliced : (slices (stem ++ suffix.toList)).1 :: (slices (stem ++ suffix.toList)).2 =
      pieces (stem ++ suffix.toList) := rfl
  rw [target, htext, hzero, hsize, if_neg hnonempty]
  simp only [String.toList_ofList, hsliced, hsignificant, hrooted]
  simp only [hcut, List.getLast?_concat, hslash, hnamed ['.'] (by decide),
    hnamed ['.', '.'] (by decide), or_self, if_false, List.dropLast_concat]
  rfl

/-- A path that leads somewhere leads to the name that its stem and suffix spell. -/
theorem Leads.name_eq {directory : Location} {name : String} (hext : Extends suffix)
    (hleads : d.Leads working (ofChars stem suffix) directory name) :
    d.stemDirectory working stem = .ok directory ∧ name = continued stem suffix := by
  have htarget := hleads.target
  rw [target_ofChars hext] at htarget
  split at htarget
  · cases htarget
  · split at htarget
    · cases htarget
    · cases hfound : d.stemDirectory working stem with
      | error error =>
        rw [hfound] at htarget
        cases htarget
      | ok place =>
        rw [hfound] at htarget
        cases htarget
        exact ⟨rfl, rfl⟩

/-- If a path leads to a name in a directory, so does another of its stem that is no longer. -/
theorem Leads.ofChars {directory : Location} {name : String} (hext : Extends suffix)
    (hext' : Extends other) (hshorter : other.utf8ByteSize ≤ suffix.utf8ByteSize)
    (hleads : d.Leads working (ofChars stem suffix) directory name) :
    d.Leads working (ofChars stem other) directory (continued stem other) := by
  obtain ⟨hfound, rfl⟩ := hleads.name_eq hext
  have htarget := hleads.target
  rw [target_ofChars hext] at htarget
  have hfits := hleads.fits
  constructor
  · rw [target_ofChars hext', hfound]
    split at htarget
    · cases htarget
    · split at htarget
      · cases htarget
      · next hzero hlong =>
        rw [if_neg hzero, if_neg (by omega)]
        rfl
  · simp only [continued, String.ofList_append, String.ofList_toList,
      String.utf8ByteSize_append] at hfits ⊢
    omega

theorem continued_ne (hapart : suffix ≠ other) : continued stem suffix ≠ continued stem other := by
  intro hsame
  exact hapart (String.toList_inj.1 (List.append_cancel_left (String.ofList_injective hsame)))

end Stem

/-! ### What is at a place -/

/-- Two disks have the same at every place but one. -/
def SameOff (place : Location) (d d' : Disk) : Prop :=
  ∀ other, other ≠ place → d'.node? other = d.node? other

theorem sameOff_put (d : Disk) (place : Location) (node : Node) :
    SameOff place d (d.put place node) := by
  intro other hapart
  by_cases hroot : other = []
  · simp [node?, hroot]
  · rw [node?_put d node hroot, if_neg hapart]

theorem sameOff_erase (d : Disk) (place : Location) : SameOff place d (d.erase place) := by
  intro other hapart
  by_cases hroot : other = []
  · simp [node?, hroot]
  · rw [node?_erase d hroot, if_neg hapart]

/-- All directories of a disk are on another. -/
def DirectoriesIn (d d' : Disk) : Prop :=
  ∀ place, d.node? place = some .directory → d'.node? place = some .directory

theorem SameOff.directoriesIn {place : Location} (hsame : SameOff place d d')
    (hnone : d.node? place ≠ some .directory) : d.DirectoriesIn d' := fun other hfound => by
  rw [hsame other fun h => hnone (h ▸ hfound), hfound]

/-- Pieces are followed the same way on a disk that has the same directories. -/
theorem walk_mono (hkept : d.DirectoriesIn d') {start place : Location}
    {pieces : List (List Char)} (hwalked : d.walk start pieces = .ok place) :
    d'.walk start pieces = .ok place := by
  induction pieces generalizing start with
  | nil => exact hwalked
  | cons piece rest ih =>
    rw [walk] at hwalked ⊢
    split at hwalked
    · next hidle => rw [if_pos hidle, ih hwalked]
    · next hidle =>
      rw [if_neg hidle]
      split at hwalked
      · next hparent => rw [if_pos hparent, ih hwalked]
      · next hparent =>
        rw [if_neg hparent]
        simp only [ entry?] at hwalked ⊢
        split at hwalked
        · next hfound =>
          split at hfound
          · next hfits =>
            rw [if_pos hfits, hkept _ (Except.ok.inj hfound)]
            exact ih hwalked
          · cases hfound
        all_goals cases hwalked

/-- A path leads to the same place on a disk that has the same directories. -/
theorem target_mono (hkept : d.DirectoriesIn d') {t : Target}
    (hfound : d.target working p = .ok t) : d'.target working p = .ok t := by
  have hmap {f : Location → Target} {start : Location} {pieces : List (List Char)}
      (hwalked : (d.walk start pieces).map f = .ok t) : (d'.walk start pieces).map f = .ok t := by
    cases habove : d.walk start pieces with
    | error error => rw [habove] at hwalked; cases hwalked
    | ok place => rw [walk_mono hkept habove, ← habove, hwalked]
  simp only [target] at hfound ⊢
  split at hfound
  · cases hfound
  next hzero =>
  split at hfound
  · cases hfound
  next hempty =>
  split at hfound
  · cases hfound
  next hlong =>
  rw [if_neg hzero, if_neg hempty, if_neg hlong]
  split at hfound
  · exact hfound
  next hlast =>
  split at hfound
  · next hpoints => rw [if_pos hpoints]; exact hmap hfound
  · next hpoints => rw [if_neg hpoints]; exact hmap hfound

namespace Leads

variable {directory : Location} {name : String}

/-- A path leads to one place only. -/
theorem unique {directory' : Location} {name' : String} (hleads : d.Leads working p directory name)
    (hleads' : d.Leads working p directory' name') : directory = directory' ∧ name = name' := by
  have hsame := hleads.target.symm.trans hleads'.target
  simpa using hsame

/-- A path leads to the same place on a disk that has the same directories. -/
theorem mono (hleads : d.Leads working p directory name)
    (hkept : d.DirectoriesIn d') : d'.Leads working p directory name :=
  ⟨target_mono hkept hleads.target, hleads.fits⟩

theorem sameOff (hleads : d.Leads working p directory name) {place : Location}
    (hsame : SameOff place d d') (hnone : d.node? place ≠ some .directory) :
    d'.Leads working p directory name :=
  hleads.mono (hsame.directoriesIn hnone)

/-- What is found at a path is what is at the place to which it leads. -/
theorem find?_eq (hleads : d.Leads working p directory name) :
    d.find? working p = match d.node? (directory ++ [name]) with
      | none => .error .notFound
      | some node => .ok node := by
  simp only [find?, hleads.target, atTarget?, entry?, if_pos hleads.fits, bind, Except.bind]
  cases d.node? (directory ++ [name]) with
  | none => rfl
  | some node => cases node <;> rfl

end Leads

/-! ### Operations -/

/-- What is at a place that a target names is found if the name is not too long. -/
theorem atTarget?_eq_ok {directory : Location} {name : String} {slash : Bool} {o : Option Node} :
    d.atTarget? ⟨directory, some name, slash⟩ = .ok o ↔
      name.utf8ByteSize ≤ nameLimit ∧ d.node? (directory ++ [name]) = o := by
  simp only [atTarget?, entry?]
  split
  · next hfits => simp [hfits]
  · next hlong => simp [hlong]

/-- There is a file of the given contents at a path. -/
def Holds (d : Disk) (working : Location) (p : Path) (contents : Bytes) : Prop :=
  ∃ executable, d.find? working p = .ok (.file contents executable)

/-- What has been read at a path is held there. -/
theorem holds_of_read {contents : Bytes} (hread : d.read working p = .ok contents) :
    d.Holds working p contents := by
  simp only [Disk.read, Except.bind_eq_ok] at hread
  obtain ⟨t, -, node, hfound, hread⟩ := hread
  cases node with
  | directory => cases hread
  | file contents' executable =>
    obtain ⟨-, -, hsame⟩ := Except.bind_eq_ok.1 hread
    exact ⟨executable, Except.pure_eq_ok.1 hsame ▸ hfound⟩

/-- A file that has been written is at the place to which its path leads. -/
theorem exists_of_write {contents : Bytes} (hwritten : d.write working p contents = .ok d') :
    ∃ directory name executable, d.Leads working p directory name ∧
      d.node? (directory ++ [name]) ≠ some .directory ∧
        d' = d.put (directory ++ [name]) (.file contents executable) := by
  obtain ⟨t, htarget, hwritten⟩ := Except.bind_eq_ok.1 hwritten
  split at hwritten
  · cases hwritten
  next hnamed =>
  obtain ⟨directory, _ | name, _ | _⟩ := t
  case some.false =>
    obtain ⟨o, hentry, hwritten⟩ := Except.bind_eq_ok.1 hwritten
    obtain ⟨hfits, hnode⟩ := atTarget?_eq_ok.1 hentry
    refine ⟨directory, name, ?_⟩
    rcases o with _ | _ | ⟨_, executable⟩
    · obtain ⟨-, -, hput⟩ := Except.bind_eq_ok.1 hwritten
      exact ⟨false, ⟨htarget, hfits⟩, by simp [hnode], (Except.pure_eq_ok.1 hput).symm⟩
    · cases hwritten
    · obtain ⟨-, -, hput⟩ := Except.bind_eq_ok.1 hwritten
      exact ⟨executable, ⟨htarget, hfits⟩, by simp [hnode], (Except.pure_eq_ok.1 hput).symm⟩
  all_goals simp at hnamed

/-- A file that has been removed was at the place to which its path leads. -/
theorem exists_of_remove (hremoved : d.remove working p = .ok d') :
    ∃ directory name, d.Leads working p directory name ∧
      d.node? (directory ++ [name]) ≠ some .directory ∧ d' = d.erase (directory ++ [name]) := by
  obtain ⟨⟨directory, name?, slash⟩, htarget, hremoved⟩ := Except.bind_eq_ok.1 hremoved
  split at hremoved
  · cases hremoved
  next hnamed =>
  obtain ⟨name, rfl⟩ := Option.ne_none_iff_exists'.1 hnamed
  obtain ⟨o, hentry, hremoved⟩ := Except.bind_eq_ok.1 hremoved
  obtain ⟨hfits, hnode⟩ := atTarget?_eq_ok.1 hentry
  rcases o with _ | _ | ⟨_, executable⟩
  · cases hremoved
  · cases hremoved
  · cases slash with
    | true => cases hremoved
    | false =>
      obtain ⟨-, -, herased⟩ := Except.bind_eq_ok.1 hremoved
      exact ⟨directory, name, ⟨htarget, hfits⟩, by simp [hnode], (Except.pure_eq_ok.1 herased).symm⟩

/-- A file that is not there to be removed is not at the place to which its path leads, unless the
disk denies a file that it has. -/
theorem Leads.node?_of_remove {directory : Location} {name : String}
    (hleads : d.Leads working p directory name)
    (hcandid : ∀ place, d.refusal .remove place ≠ some .notFound)
    (hmissing : d.remove working p = .error .notFound) : d.node? (directory ++ [name]) = none := by
  have hentry : d.atTarget? ⟨directory, some name, false⟩ = .ok (d.node? (directory ++ [name])) :=
    atTarget?_eq_ok.2 ⟨hleads.fits, rfl⟩
  cases hthere : d.node? (directory ++ [name]) with
  | none => rfl
  | some node =>
    rw [hthere] at hentry
    have hrefused := hcandid (directory ++ [name])
    cases node with
    | directory => simp [remove, hleads.target, hentry, bind, Except.bind] at hmissing
    | file contents executable =>
      cases hrefusal : d.refusal .remove (directory ++ [name]) with
      | none =>
        simp [remove, hleads.target, hentry, bind, Except.bind, Target.place, permit, hrefusal,
          pure, Except.pure] at hmissing
      | some error =>
        obtain rfl : error = .notFound := by
          simpa [remove, hleads.target, hentry, bind, Except.bind, Target.place, permit, hrefusal]
            using hmissing
        exact absurd hrefusal hrefused

end Disk

end SidTune
