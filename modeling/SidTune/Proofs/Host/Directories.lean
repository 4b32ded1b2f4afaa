import SidTune.Proofs.Host.Disk

/-!
# Directories that are made

Making a directory and those above it changes nothing if the directory is there. If it says that it
has succeeded, the directory is there afterwards.

## Main results

* `SidTune.Disk.isDirectory_of_makeDirectory`: a directory that has been made is there.
* `SidTune.Disk.makeDirectories_of_isDirectory`, `SidTune.Disk.isDirectory_of_makeDirectories`: the
  same with the directories above it.
-/

namespace SidTune.Disk

variable {d d' : Disk} {working : Location} {p : Path}

theorem isDirectory_iff : d.isDirectory working p ↔
    ∃ t, d.target working p = .ok t ∧ d.atTarget? t = .ok (some .directory) := by
  have hfound : d.isDirectory working p ↔ d.find? working p = .ok .directory := by
    unfold isDirectory
    split
    · next h => simp [h]
    · next h => exact iff_of_false (by simp) h
  rw [hfound, find?]
  simp only [Except.bind_eq_ok]
  refine exists_congr fun t => and_congr_right fun _ => ?_
  constructor
  · rintro ⟨node?, hthere, htold⟩
    rcases node? with _ | _ | ⟨contents, executable⟩
    · cases htold
    · exact hthere
    · dsimp only at htold
      split at htold <;> cases htold
  · exact fun hthere => ⟨_, hthere, rfl⟩

/-- A directory is made under a name that is free. -/
theorem exists_of_makeDirectory (hmade : d.makeDirectory working p = .ok d') :
    ∃ directory name slash, d.target working p = .ok ⟨directory, some name, slash⟩ ∧
      name.utf8ByteSize ≤ nameLimit ∧ d.node? (directory ++ [name]) = none ∧
      d' = d.put (directory ++ [name]) .directory := by
  simp only [makeDirectory, Except.bind_eq_ok] at hmade
  obtain ⟨⟨directory, name?, slash⟩, hled, node?, hthere, hmade⟩ := hmade
  split at hmade
  · cases hmade
  next hfree =>
  obtain ⟨-, -, hmade⟩ := Except.bind_eq_ok.1 hmade
  obtain ⟨hnamed, hnothing⟩ := not_or.1 hfree
  obtain ⟨name, rfl⟩ := Option.ne_none_iff_exists'.1 hnamed
  obtain rfl := Option.not_isSome_iff_eq_none.1 hnothing
  obtain ⟨hfits, hfree⟩ := atTarget?_eq_ok.1 hthere
  exact ⟨directory, name, slash, hled, hfits, hfree, (Except.pure_eq_ok.1 hmade).symm⟩

/-- A directory that has been made is there. -/
theorem isDirectory_of_makeDirectory (hmade : d.makeDirectory working p = .ok d') :
    d'.isDirectory working p := by
  obtain ⟨directory, name, slash, hled, hfits, hfree, rfl⟩ := exists_of_makeDirectory hmade
  have hkept := (sameOff_put d (directory ++ [name]) .directory).directoriesIn (by simp [hfree])
  refine isDirectory_iff.2 ⟨_, target_mono hkept hled, atTarget?_eq_ok.2 ⟨hfits, ?_⟩⟩
  rw [node?_put d _ (by simp), if_pos rfl]

theorem makeDirectory_of_isDirectory (hthere : d.isDirectory working p) :
    d.makeDirectory working p = .error .alreadyExists := by
  obtain ⟨t, hled, hthere⟩ := isDirectory_iff.1 hthere
  simp [makeDirectory, hled, hthere, bind, Except.bind]

/-- The empty path leads nowhere. -/
theorem text_ne_of_isDirectory (hthere : d.isDirectory working p) : p.text ≠ "" := by
  obtain ⟨t, hled, -⟩ := isDirectory_iff.1 hthere
  intro hempty
  rw [target, if_neg (by simp [hempty, Path.hasZero]), if_pos hempty] at hled
  cases hled

/-- A directory that is there is left as it is. -/
theorem makeDirectories_of_isDirectory (hthere : d.isDirectory working p) :
    d.makeDirectories working p = (.ok (), d) := by
  rw [makeDirectories, makeAll, if_neg (text_ne_of_isDirectory hthere),
    makeDirectory_of_isDirectory hthere]
  simp only [hthere, if_true]

theorem isDirectory_of_tolerated {error : OsError}
    (htold : (if d.isDirectory working p then .ok () else .error error, d) =
      (Except.ok (), d')) : d'.isDirectory working p := by
  by_cases hthere : d.isDirectory working p
  · rw [if_pos hthere] at htold
    cases htold
    exact hthere
  · rw [if_neg hthere] at htold
    cases htold

/-- What is said to be there or to have been made is there. -/
theorem isDirectory_of_makeIfMissing (hmade : d.makeIfMissing working p = (.ok (), d')) :
    d'.isDirectory working p := by
  unfold makeIfMissing at hmade
  split at hmade
  · next hhere =>
    cases hmade
    exact isDirectory_of_makeDirectory hhere
  · exact isDirectory_of_tolerated hmade

/-- A directory that is said to have been made with those above it is there. -/
theorem isDirectory_of_makeDirectories (hnamed : p.text ≠ "")
    (hmade : d.makeDirectories working p = (.ok (), d')) : d'.isDirectory working p := by
  rw [makeDirectories, makeAll, if_neg hnamed] at hmade
  split at hmade
  · next hhere =>
    cases hmade
    exact isDirectory_of_makeDirectory hhere
  · -- The directories above it are missing.
    split at hmade
    · cases hmade
    · split at hmade
      · cases hmade
      · exact isDirectory_of_makeIfMissing hmade
  · exact isDirectory_of_tolerated hmade

end SidTune.Disk
