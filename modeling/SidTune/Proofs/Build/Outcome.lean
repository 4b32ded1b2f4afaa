import SidTune.Proofs.Build.Stale
import SidTune.Proofs.Host.Names

/-!
# What the result of a build says about the disk

The four files of a build are four names in one directory, unless the build is refused because two
of its paths are one. So what is written at one of them stays when the others are written or
removed, and a careful assembler touches the image only. From that follows what is on the disk when
a build ends: which files there are after each result, and that there is no change elsewhere.

## Main definitions

* `SidTune.Build.Arranged`: the files of a build are four names in one directory.
* `SidTune.Build.Elsewhere`: places to which no path of a build leads.
* `SidTune.Build.Ready`, `SidTune.Build.Left`: disks before the assembler is looked for and after.
* `SidTune.Build.Told`: what the result of a build says about the disk that it leaves.

## Main results

* `SidTune.Build.result_tells_disk`: the result of every build says so.
-/

namespace SidTune.Build

open Disk

variable {d₀ d d' : Disk} {working directory : Location} {p : Path}

/-! ### Where the files of a build are -/

/-- The names of the files of a build in their directory. -/
structure FileNames where
  standaloneSource : String
  librarySource : String
  image : String
  packaged : String

/-- The paths of the files of a build lead to four names in one directory. -/
structure Arranged (a : Artifacts) (working : Location) (d : Disk) (directory : Location)
    (n : FileNames) : Prop where
  standaloneSource : d.Leads working a.standaloneSource directory n.standaloneSource
  librarySource : d.Leads working a.librarySource directory n.librarySource
  image : d.Leads working a.image directory n.image
  packaged : d.Leads working a.packaged directory n.packaged
  distinct : [n.standaloneSource, n.librarySource, n.image, n.packaged].Nodup

theorem Arranged.names_ne {a : Artifacts} {n : FileNames}
    (harranged : Arranged a working d directory n) :
    (n.standaloneSource ≠ n.librarySource ∧ n.standaloneSource ≠ n.image ∧
      n.standaloneSource ≠ n.packaged) ∧
    (n.librarySource ≠ n.image ∧ n.librarySource ≠ n.packaged) ∧ n.image ≠ n.packaged := by
  simpa using harranged.distinct

private theorem pairwise_of_firstRepeated? {paths : List Path}
    (hdistinct : firstRepeated? paths = none) :
    paths.Pairwise (· ≠ ·) := by
  induction paths with
  | nil => exact .nil
  | cons p rest ih =>
    rw [firstRepeated?] at hdistinct
    split at hdistinct
    · cases hdistinct
    · next hfresh =>
      refine .cons (fun q hmem hsame => hfresh ?_) (ih hdistinct)
      exact List.any_eq_true.2 ⟨q, hmem, by simp [hsame, Path.same]⟩

/-- If the output and the library source can be named, the files are arranged. -/
theorem exists_arranged {output : Path} {directory' : Location} {name name' : String}
    (hdistinct : (Artifacts.ofOutput output).conflict? = none)
    (hstandalone : d.Leads working output directory name)
    (hlibrary : d.Leads working (Artifacts.ofOutput output).librarySource directory' name') :
    ∃ n : FileNames, n.standaloneSource = name ∧ n.librarySource = name' ∧
      Arranged (.ofOutput output) working d directory n := by
  obtain rfl : directory' = directory := hstandalone.directory_eq extends_library hlibrary
  have himage := hlibrary.ofChars extends_library extends_image (by decide)
  have hpackaged := hlibrary.ofChars extends_library extends_packaged (by decide)
  have hapart := pairwise_of_firstRepeated? hdistinct
  simp only [Artifacts.paths, List.pairwise_cons, List.mem_cons, forall_eq_or_imp] at hapart
  obtain ⟨⟨hfromLibrary, hfromImage, hfromPackaged, -⟩, -⟩ := hapart
  have hfromLibrary := hstandalone.name_ne extends_library hlibrary hfromLibrary
  have hfromImage := hstandalone.name_ne extends_image himage hfromImage
  have hfromPackaged := hstandalone.name_ne extends_packaged hpackaged hfromPackaged
  have hlibrary_eq := (hlibrary.name_eq extends_library).2
  refine ⟨⟨name, name', _, _⟩, rfl, rfl, hstandalone, hlibrary, himage, hpackaged, ?_⟩
  simp only [List.nodup_cons, List.mem_cons, List.not_mem_nil, or_false, not_or, not_false_eq_true,
    List.nodup_nil, and_true]
  refine ⟨⟨hfromLibrary, hfromImage, hfromPackaged⟩, ⟨?_, ?_⟩, continued_ne (by decide)⟩
  · exact hlibrary_eq ▸ continued_ne (by decide)
  · exact hlibrary_eq ▸ continued_ne (by decide)

/-- Files that are arranged on a disk are so on one with the same directories. -/
theorem Arranged.mono {a : Artifacts} {n : FileNames} (harranged : Arranged a working d directory n)
    (hkept : d.DirectoriesIn d') : Arranged a working d' directory n :=
  ⟨harranged.standaloneSource.mono hkept, harranged.librarySource.mono hkept,
    harranged.image.mono hkept, harranged.packaged.mono hkept, harranged.distinct⟩

/-! ### What is elsewhere -/

/-- No path of a build leads to a place. -/
def Elsewhere (a : Artifacts) (working : Location) (d₀ : Disk) (place : Location) : Prop :=
  ∀ p ∈ a.paths, ∀ t, d₀.target working p = .ok t → t.place ≠ place

/-- A disk has been changed where the paths of a build lead only, and has the same directories. -/
structure Touched (a : Artifacts) (working : Location) (d₀ d : Disk) : Prop where
  directories : ∀ place, d.node? place = some .directory ↔ d₀.node? place = some .directory
  elsewhere : ∀ place, Elsewhere a working d₀ place → d.node? place = d₀.node? place

section Touched

variable {a : Artifacts}

theorem Touched.refl (a : Artifacts) (working : Location) (d₀ : Disk) :
    Touched a working d₀ d₀ :=
  ⟨fun _ => .rfl, fun _ _ => rfl⟩

/-- A path leads to the same place as before. -/
theorem Touched.leads (htouched : Touched a working d₀ d) {name : String} :
    d.Leads working p directory name ↔ d₀.Leads working p directory name :=
  ⟨fun hleads => hleads.mono fun place => (htouched.directories place).1,
    fun hleads => hleads.mono fun place => (htouched.directories place).2⟩

/-- A file may come or go where a path of the build leads. -/
theorem Touched.change (htouched : Touched a working d₀ d) (hmem : p ∈ a.paths) {name : String}
    (hleads : d.Leads working p directory name) (hsame : SameOff (directory ++ [name]) d d')
    (hfile : d.node? (directory ++ [name]) ≠ some .directory)
    (hfile' : d'.node? (directory ++ [name]) ≠ some .directory) : Touched a working d₀ d' := by
  constructor
  · intro place
    rw [← htouched.directories place]
    by_cases hhere : place = directory ++ [name]
    · subst hhere
      exact iff_of_false hfile' hfile
    · rw [hsame place hhere]
  · intro place helsewhere
    have hother := helsewhere p hmem _ (htouched.leads.1 hleads).target
    rw [← htouched.elsewhere place helsewhere]
    exact hsame place hother.symm

theorem Touched.write (htouched : Touched a working d₀ d) (hmem : p ∈ a.paths) {contents : Bytes}
    (hwritten : d.write working p contents = .ok d') : Touched a working d₀ d' := by
  obtain ⟨directory, name, executable, hleads, hfile, rfl⟩ := exists_of_write hwritten
  refine htouched.change hmem hleads (sameOff_put d _ _) hfile ?_
  simp [node?_put]

theorem Touched.clear (htouched : Touched a working d₀ d) (hmem : p ∈ a.paths)
    (hcleared : Cleared d working p d') : Touched a working d₀ d' := by
  cases hcleared with
  | removed hremoved =>
    obtain ⟨directory, name, hleads, hfile, rfl⟩ := exists_of_remove hremoved
    refine htouched.change hmem hleads (sameOff_erase d _) hfile ?_
    simp [node?_erase]
  | missing => exact htouched

variable {sources : Player.Sources}

theorem Prepared.touched (hprepared : Prepared sources a working d₀ d) :
    Touched a working d₀ d := by
  obtain ⟨hstandalone, hlibrary, himage, hpackaged⟩ := hprepared
  refine (((Touched.refl a working d₀).write ?_ hstandalone).write ?_ hlibrary).clear ?_ himage
    |>.clear ?_ hpackaged
  all_goals simp [Artifacts.paths]

theorem Halted.touched {cause : OsError} (hhalted : Halted sources a working d₀ p cause d) :
    Touched a working d₀ d := by
  have hstart := Touched.refl a working d₀
  have hstandaloneIn : a.standaloneSource ∈ a.paths := by simp [Artifacts.paths]
  have hlibraryIn : a.librarySource ∈ a.paths := by simp [Artifacts.paths]
  have himageIn : a.image ∈ a.paths := by simp [Artifacts.paths]
  cases hhalted with
  | standalone => exact hstart
  | library hstandalone => exact hstart.write hstandaloneIn hstandalone
  | image hstandalone hlibrary =>
    exact (hstart.write hstandaloneIn hstandalone).write hlibraryIn hlibrary
  | packaged hstandalone hlibrary himage =>
    exact ((hstart.write hstandaloneIn hstandalone).write hlibraryIn hlibrary).clear himageIn himage

end Touched

/-! ### Before and after the assembler -/

/-- There is a file of the given contents at a place. -/
def FileAt (d : Disk) (place : Location) (contents : Bytes) : Prop :=
  ∃ executable, d.node? place = some (.file contents executable)

theorem FileAt.of_eq {place : Location} {contents : Bytes} (hthere : FileAt d place contents)
    (hsame : d'.node? place = d.node? place) : FileAt d' place contents := by
  rwa [FileAt, hsame]

/-- What is at the place to which a path leads is held at the path. -/
theorem FileAt.holds {name : String} {contents : Bytes}
    (hthere : FileAt d (directory ++ [name]) contents) (hleads : d.Leads working p directory name) :
    d.Holds working p contents := by
  obtain ⟨executable, hthere⟩ := hthere
  exact ⟨executable, by rw [hleads.find?_eq, hthere]⟩

theorem fileAt_of_write {name : String} {contents : Bytes}
    (hleads : d.Leads working p directory name) (hwritten : d.write working p contents = .ok d') :
    FileAt d' (directory ++ [name]) contents ∧ SameOff (directory ++ [name]) d d' ∧
      d.node? (directory ++ [name]) ≠ some .directory := by
  obtain ⟨directory', name', executable, hleads', hfile, rfl⟩ := exists_of_write hwritten
  obtain ⟨rfl, rfl⟩ := hleads.unique hleads'
  refine ⟨⟨executable, ?_⟩, sameOff_put d _ _, hfile⟩
  rw [node?_put d _ (by simp), if_pos rfl]

/-- A disk that a build leaves once it has come as far as the assembler, before anything is
packaged: both sources hold the texts, there is no packaged file, and nothing is changed
elsewhere. -/
structure Left (sources : Player.Sources) (a : Artifacts) (working : Location) (d₀ d : Disk)
    (directory : Location) (n : FileNames) : Prop extends Arranged a working d directory n where
  initially : Arranged a working d₀ directory n
  standaloneText :
    FileAt d (directory ++ [n.standaloneSource]) (Bytes.ofText sources.standalone)
  libraryText : FileAt d (directory ++ [n.librarySource]) (Bytes.ofText sources.library)
  noPackaged : d.node? (directory ++ [n.packaged]) = none
  elsewhere : ∀ place, Elsewhere a working d₀ place → d.node? place = d₀.node? place

/-- A disk on which the assembler is looked for: there is no image either. -/
structure Ready (sources : Player.Sources) (a : Artifacts) (working : Location) (d₀ d : Disk)
    (directory : Location) (n : FileNames) : Prop
    extends Left sources a working d₀ d directory n where
  noImage : d.node? (directory ++ [n.image]) = none

/-- The disk is ready when the assembler is looked for. -/
theorem Prepared.ready {sources : Player.Sources} {output : Path}
    (hprepared : Prepared sources (.ofOutput output) working d₀ d)
    (hdistinct : (Artifacts.ofOutput output).conflict? = none)
    (hcandid : ∀ place, d₀.refusal .remove place ≠ some .notFound) :
    ∃ directory n, Ready sources (.ofOutput output) working d₀ d directory n := by
  have htouched := hprepared.touched
  obtain @⟨d₁, d₂, d₃, _, hstandalone, hlibrary, himage, hpackaged⟩ := hprepared
  obtain ⟨directory, name, executable, hleads, hfile, hwritten⟩ := exists_of_write hstandalone
  obtain ⟨directory', name', executable', hleads', hfile', hwritten'⟩ := exists_of_write hlibrary
  have hleads₁ : d₁.Leads working output directory name :=
    hleads.sameOff (hwritten ▸ sameOff_put d₀ _ _) hfile
  obtain ⟨n, rfl, rfl, harranged⟩ := exists_arranged hdistinct hleads₁ hleads'
  obtain ⟨htext, -, -⟩ := fileAt_of_write hleads hstandalone
  obtain ⟨htext', hsame', hfile'⟩ := fileAt_of_write harranged.librarySource hlibrary
  have hcandid₂ (place : Location) : d₂.refusal .remove place ≠ some .notFound := by
    rw [hwritten', hwritten]
    exact hcandid place
  have harranged₂ := harranged.mono (hsame'.directoriesIn hfile')
  obtain ⟨hnoImage, hsame₃, hfile₃, hrefusal⟩ := himage.spec harranged₂.image hcandid₂
  have harranged₃ := harranged₂.mono (hsame₃.directoriesIn hfile₃)
  obtain ⟨hnoPackaged, hsame₄, hfile₄, -⟩ :=
    hpackaged.spec harranged₃.packaged (hrefusal ▸ hcandid₂)
  obtain ⟨⟨hstandalone_library, hstandalone_image, hstandalone_packaged⟩,
    ⟨hlibrary_image, hlibrary_packaged⟩, himage_packaged⟩ := harranged.names_ne
  have harranged₄ := harranged₃.mono (hsame₄.directoriesIn hfile₄)
  refine ⟨directory, n, ⟨harranged₄, harranged₄.mono fun place => (htouched.directories place).1,
    ?_, ?_, hnoPackaged, htouched.elsewhere⟩, ?_⟩
  · refine htext.of_eq ?_
    rw [hsame₄ _ (place_ne hstandalone_packaged), hsame₃ _ (place_ne hstandalone_image),
      hsame' _ (place_ne hstandalone_library)]
  · refine htext'.of_eq ?_
    rw [hsame₄ _ (place_ne hlibrary_packaged), hsame₃ _ (place_ne hlibrary_image)]
  · rw [hsame₄ _ (place_ne himage_packaged), hnoImage]

theorem Ready.left_of_sameOff {sources : Player.Sources} {a : Artifacts} {n : FileNames}
    (hready : Ready sources a working d₀ d directory n)
    (hsame : SameOff (directory ++ [n.image]) d d') :
    Left sources a working d₀ d' directory n := by
  have hfile : d.node? (directory ++ [n.image]) ≠ some .directory := by simp [hready.noImage]
  obtain ⟨⟨-, hstandalone_image, -⟩, ⟨hlibrary_image, -⟩, himage_packaged⟩ := hready.names_ne
  refine ⟨hready.toArranged.mono (hsame.directoriesIn hfile), hready.initially,
    hready.standaloneText.of_eq (hsame _ (place_ne hstandalone_image)),
    hready.libraryText.of_eq (hsame _ (place_ne hlibrary_image)), ?_, fun place helsewhere => ?_⟩
  · rw [hsame _ (place_ne (Ne.symm himage_packaged)), hready.noPackaged]
  · have hother : directory ++ [n.image] ≠ place :=
      helsewhere a.image (by simp [Artifacts.paths]) _ hready.initially.image.target
    rw [hsame place hother.symm, hready.elsewhere place helsewhere]

section Assembler

variable {sources : Player.Sources} {a : Artifacts} {n : FileNames} {h : Host}

/-- The step of the assembler leaves both sources, no packaged file, and no change elsewhere. -/
theorem Assembly.left {s : Settings} {given : Except Failure Bytes}
    (hassembly : Assembly s a.librarySource a.image h given d)
    (hready : Ready sources a h.working d₀ h.disk directory n)
    (hcareful : ∀ contents program, h.load contents = some program → Careful program) :
    Left sources a h.working d₀ d directory n := by
  rcases hassembly.disk_eq with rfl | ⟨program, call, hcalled, rfl⟩
  · exact hready.toLeft
  · obtain ⟨contents, hloaded⟩ := hcalled.loaded
    have houtput : call.arguments[3]? = some a.image.text := by
      rw [hcalled.arguments]
      rfl
    have hleads : h.disk.Leads call.working a.image directory n.image :=
      hcalled.working ▸ hready.image
    exact hready.left_of_sameOff ((hcareful contents program hloaded).sameOff houtput hleads)

end Assembler

/-! ### Results -/

/-- The failures of the step of the assembler, apart from that there is none. -/
def Failure.OfAssembler : Failure → Prop
  | .notStarted _ | .outOfTime _ | .assemblerError .. | .noImage _ | .unreadable _ => True
  | .noAssembler | .notWritten .. | .sharedPath _ => False

/-- The assembler is not found on a host. -/
def Unlocated (s : Settings) (h : Host) : Prop :=
  ∃ failure, ((locate s).run h).1 = .error failure

theorem unlocated_iff {s : Settings} {h : Host} : Unlocated s h ↔ located? s h = none := by
  cases hlocated : located? s h with
  | none =>
    obtain ⟨log, hrun⟩ := leaves_locate_error hlocated
    exact iff_of_true ⟨_, by rw [hrun]⟩ rfl
  | some assembler =>
    obtain ⟨log, hrun⟩ := leaves_locate hlocated
    refine iff_of_false ?_ nofun
    rintro ⟨failure, hfailed⟩
    rw [hrun] at hfailed
    cases hfailed

section Results

variable (song : Song) (output : Path) (s : Settings) (h : Host)

/-- Both sources of a song are on a disk. -/
def HoldsSources (d : Disk) : Prop :=
  d.Holds h.working (Artifacts.ofOutput output).standaloneSource
      (Bytes.ofText (sourcesOf song).standalone) ∧
    d.Holds h.working (Artifacts.ofOutput output).librarySource
      (Bytes.ofText (sourcesOf song).library)

/-- Nothing is at a path. -/
def Nothing (d : Disk) (p : Path) : Prop :=
  d.find? h.working p = .error .notFound

/-- A packaged file that a build tells of: a run of the assembler that ended well left an image
where there was nothing, and the file is that image packaged. -/
def Delivered (file : Packaged) (d : Disk) : Prop :=
  ∃ before outcome image,
    Prepared (sourcesOf song) (.ofOutput output) h.working h.disk before ∧
    Nothing h before (Artifacts.ofOutput output).image ∧
    Ran s (Artifacts.ofOutput output).librarySource (Artifacts.ofOutput output).image
      (h.after before h.log) outcome ∧
    outcome.ending = .exited 0 ∧
    outcome.disk.Holds h.working (Artifacts.ofOutput output).image image ∧
    d.Holds h.working (Artifacts.ofOutput output).image image ∧
    d.Holds h.working (Artifacts.ofOutput output).packaged (packagedContents song image) ∧
    file.path = (Artifacts.ofOutput output).packaged ∧
    file.size = (packagedContents song image).length ∧
    file.hash = (Blake3.hash (packagedContents song image)).toHex

/-- What the result of a build says about the disk that it leaves. -/
structure Told (result : Except Failure Result) (d : Disk) : Prop where
  shared : ∀ path, result = .error (.sharedPath path) → d = h.disk
  sourcesOnly_iff : (∃ r, result = .ok r ∧ r.packaged? = none) ↔
    (Artifacts.ofOutput output).conflict? = none ∧
      ∃ before, Prepared (sourcesOf song) (.ofOutput output) h.working h.disk before ∧
        Unlocated s (h.after before h.log)
  sourcesOnly : ∀ r, result = .ok r → r.packaged? = none →
    HoldsSources song output h d ∧ Nothing h d (Artifacts.ofOutput output).image ∧
      Nothing h d (Artifacts.ofOutput output).packaged
  packaged : ∀ r file, result = .ok r → r.packaged? = some file →
    HoldsSources song output h d ∧ Delivered song output s h file d
  failed : ∀ failure, result = .error failure → failure.OfAssembler →
    HoldsSources song output h d ∧ Nothing h d (Artifacts.ofOutput output).packaged
  elsewhere : ∀ place, Elsewhere (.ofOutput output) h.working h.disk place →
    d.node? place = h.disk.node? place

variable {song output s h} {given : Except Failure Bytes} {result : Except Failure Result}

/-- The step of the assembler says that there is none exactly when it is not found. -/
theorem Assembly.unlocated_iff {source image : Path}
    (hassembly : Assembly s source image h given d) :
    given = .error .noAssembler ↔ Unlocated s h := by
  rw [Build.unlocated_iff]
  have hfound {outcome : Host.Outcome} (hran : Ran s source image h outcome) :
      ¬ located? s h = none := by
    obtain ⟨assembler, hlocated, -⟩ := hran
    simp [hlocated]
  cases hassembly with
  | unavailable habsent => exact iff_of_true rfl habsent
  | notStarted hlocated => exact iff_of_false nofun (by simp [hlocated])
  | failed hran | killed hran | outOfTime hran | noImage hran | unreadable hran | assembled hran =>
    exact iff_of_false nofun (hfound hran)

/-- The step of the assembler fails for want of one or with a failure of its own. -/
theorem Assembly.ofAssembler {source image : Path} {failure : Failure}
    (hassembly : Assembly s source image h (.error failure) d)
    (havailable : failure ≠ .noAssembler) :
    failure.OfAssembler := by
  cases hassembly with
  | unavailable => exact havailable rfl
  | _ => trivial

theorem Reached.unlocated_iff (hreached : Reached song output s h given d) :
    given = .error .noAssembler ↔
      ∃ before, Prepared (sourcesOf song) (.ofOutput output) h.working h.disk before ∧
        Unlocated s (h.after before h.log) := by
  obtain ⟨-, hprepared, hassembly⟩ := hreached
  rw [hassembly.unlocated_iff]
  constructor
  · exact fun hunlocated => ⟨_, hprepared, hunlocated⟩
  · rintro ⟨before, hprepared', hunlocated⟩
    obtain rfl := hprepared.unique hprepared'
    exact hunlocated

theorem Reached.distinct (hreached : Reached song output s h given d) :
    (Artifacts.ofOutput output).conflict? = none := by
  obtain ⟨hdistinct, -, -⟩ := hreached
  exact hdistinct

/-- A build ends with its sources alone exactly when it comes as far as the assembler and that is
not found. -/
theorem Course.sourcesOnly_iff (hcourse : Course song output s h result d) :
    (∃ r, result = .ok r ∧ r.packaged? = none) ↔
      (Artifacts.ofOutput output).conflict? = none ∧
        ∃ before, Prepared (sourcesOf song) (.ofOutput output) h.working h.disk before ∧
          Unlocated s (h.after before h.log) := by
  cases hcourse with
  | shared hconflict =>
    refine iff_of_false nofun ?_
    rintro ⟨hdistinct, -⟩
    exact nomatch hconflict.symm.trans hdistinct
  | halted hdistinct hhalted =>
    refine iff_of_false nofun ?_
    rintro ⟨-, before, hprepared, -⟩
    exact hprepared.not_halted hhalted
  | sourcesOnly hreached =>
    exact iff_of_true ⟨_, rfl, rfl⟩ ⟨hreached.distinct, hreached.unlocated_iff.1 rfl⟩
  | failed hreached havailable =>
    refine iff_of_false nofun ?_
    rintro ⟨-, hunlocated⟩
    exact havailable (Except.error.inj (hreached.unlocated_iff.2 hunlocated))
  | unpackaged hreached =>
    refine iff_of_false nofun ?_
    rintro ⟨-, hunlocated⟩
    exact nomatch hreached.unlocated_iff.2 hunlocated
  | packaged hreached =>
    refine iff_of_false ?_ ?_
    · rintro ⟨r, hsame, hnone⟩
      obtain rfl := Except.ok.inj hsame
      cases hnone
    · rintro ⟨-, hunlocated⟩
      exact nomatch hreached.unlocated_iff.2 hunlocated

section Left

variable {directory : Location} {n : FileNames}

theorem Left.holdsSources
    (hleft : Left (sourcesOf song) (.ofOutput output) h.working d₀ d directory n) :
    HoldsSources song output h d :=
  ⟨hleft.standaloneText.holds hleft.standaloneSource, hleft.libraryText.holds hleft.librarySource⟩

theorem Left.nothing
    (hleft : Left (sourcesOf song) (.ofOutput output) h.working d₀ d directory n) :
    Nothing h d (Artifacts.ofOutput output).packaged := by
  rw [Nothing, hleft.packaged.find?_eq, hleft.noPackaged]

/-- What a packaged file that is written leaves. -/
theorem Left.package {contents : Bytes}
    (hleft : Left (sourcesOf song) (.ofOutput output) h.working d₀ d directory n)
    (hwritten : d.write h.working (Artifacts.ofOutput output).packaged contents = .ok d') :
    HoldsSources song output h d' ∧
      d'.Holds h.working (Artifacts.ofOutput output).packaged contents ∧
      d'.find? h.working (Artifacts.ofOutput output).image =
        d.find? h.working (Artifacts.ofOutput output).image ∧
      ∀ place, Elsewhere (.ofOutput output) h.working d₀ place →
        d'.node? place = d₀.node? place := by
  obtain ⟨hthere, hsame, hfile⟩ := fileAt_of_write hleft.packaged hwritten
  have harranged := hleft.toArranged.mono (hsame.directoriesIn hfile)
  obtain ⟨⟨-, -, hstandalone⟩, ⟨-, hlibrary⟩, himage⟩ := hleft.names_ne
  refine ⟨⟨?_, ?_⟩, hthere.holds harranged.packaged, ?_, fun place helsewhere => ?_⟩
  · have hkept := hleft.standaloneText.of_eq (hsame _ (place_ne hstandalone))
    exact hkept.holds harranged.standaloneSource
  · exact (hleft.libraryText.of_eq (hsame _ (place_ne hlibrary))).holds harranged.librarySource
  · rw [harranged.image.find?_eq, hleft.image.find?_eq, hsame _ (place_ne himage)]
  · have hother : directory ++ [n.packaged] ≠ place :=
      helsewhere _ (by simp [Artifacts.paths]) _ hleft.initially.packaged.target
    rw [hsame place hother.symm, hleft.elsewhere place helsewhere]

end Left

section Told

variable (hcandid : ∀ place, h.disk.refusal .remove place ≠ some .notFound)
  (hcareful : ∀ contents program, h.load contents = some program → Careful program)

include hcandid hcareful

/-- The disks before and after the step of the assembler. -/
theorem Reached.exists_left (hreached : Reached song output s h given d) :
    ∃ before directory n, Prepared (sourcesOf song) (.ofOutput output) h.working h.disk before ∧
      Ready (sourcesOf song) (.ofOutput output) h.working h.disk before directory n ∧
      Assembly s (Artifacts.ofOutput output).librarySource (Artifacts.ofOutput output).image
        (h.after before h.log) given d ∧
      Left (sourcesOf song) (.ofOutput output) h.working h.disk d directory n := by
  obtain ⟨hdistinct, hprepared, hassembly⟩ := hreached
  obtain ⟨directory, n, hready⟩ := hprepared.ready hdistinct hcandid
  exact ⟨_, directory, n, hprepared, hready, hassembly, hassembly.left hready hcareful⟩

/-- A build that has packaged an image says so of the disk. -/
theorem Reached.delivered {image : Bytes} (hreached : Reached song output s h (.ok image) d)
    (hwritten : d.write h.working (Artifacts.ofOutput output).packaged
      (packagedContents song image) = .ok d') :
    Delivered song output s h (.ofContents (Artifacts.ofOutput output).packaged
      (packagedContents song image)) d' := by
  obtain ⟨before, directory, n, hprepared, hready, hassembly, hleft⟩ :=
    hreached.exists_left hcandid hcareful
  obtain ⟨-, hpackaged, hsame, -⟩ := hleft.package hwritten
  cases hassembly with
  | @assembled outcome _ hran hended hread =>
    have hheld := holds_of_read hread
    have hkept : d'.Holds h.working (Artifacts.ofOutput output).image image := by
      rw [Holds, hsame]
      exact hheld
    have hmissing : Nothing h before (Artifacts.ofOutput output).image := by
      rw [Nothing, hready.image.find?_eq, hready.noImage]
    exact ⟨before, outcome, image, hprepared, hmissing, hran, hended, hheld, hkept, hpackaged,
      rfl, rfl, rfl⟩

/-- Every course of a build leaves the disk as its result says. -/
theorem Course.told (hcourse : Course song output s h result d) :
    Told song output s h result d := by
  have hiff := hcourse.sourcesOnly_iff
  have hother {failure : Failure} {path : Path} (hsame : Except.error (ε := Failure) (α := Result)
      failure = .error (.sharedPath path)) (hof : failure.OfAssembler) : False := by
    obtain rfl := Except.error.inj hsame
    exact hof
  cases hcourse with
  | shared hconflict =>
    refine ⟨fun _ _ => rfl, hiff, nofun, nofun, fun failure hsame hof => ?_, fun _ _ => rfl⟩
    exact (hother hsame.symm hof).elim
  | halted hdistinct hhalted =>
    refine ⟨nofun, hiff, nofun, nofun, fun failure hsame hof => ?_, hhalted.touched.elsewhere⟩
    obtain rfl := Except.error.inj hsame
    exact hof.elim
  | sourcesOnly hreached =>
    obtain ⟨before, directory, n, -, hready, hassembly, hleft⟩ :=
      hreached.exists_left hcandid hcareful
    have hmissing : Nothing h d (Artifacts.ofOutput output).image := by
      cases hassembly with
      | unavailable => rw [Nothing, Host.after_disk, hready.image.find?_eq, hready.noImage]
    refine ⟨nofun, hiff, fun _ _ _ => ⟨hleft.holdsSources, hmissing, hleft.nothing⟩, ?_, nofun,
      hleft.elsewhere⟩
    intro r file hsame hpackaged
    obtain rfl := Except.ok.inj hsame
    cases hpackaged
  | failed hreached havailable =>
    obtain ⟨before, directory, n, -, -, hassembly, hleft⟩ := hreached.exists_left hcandid hcareful
    have hof := hassembly.ofAssembler havailable
    exact ⟨fun path hsame => (hother hsame hof).elim, hiff, nofun, nofun,
      fun _ _ _ => ⟨hleft.holdsSources, hleft.nothing⟩, hleft.elsewhere⟩
  | unpackaged hreached =>
    obtain ⟨before, directory, n, -, -, -, hleft⟩ := hreached.exists_left hcandid hcareful
    refine ⟨nofun, hiff, nofun, nofun, fun failure hsame hof => ?_, hleft.elsewhere⟩
    obtain rfl := Except.error.inj hsame
    exact hof.elim
  | packaged hreached hwritten =>
    obtain ⟨before, directory, n, -, -, -, hleft⟩ := hreached.exists_left hcandid hcareful
    obtain ⟨hsources, -, -, helsewhere⟩ := hleft.package hwritten
    refine ⟨nofun, hiff, ?_, ?_, nofun, helsewhere⟩
    · intro r hsame hnone
      obtain rfl := Except.ok.inj hsame
      cases hnone
    · intro r file hsame hpackaged
      obtain rfl := Except.ok.inj hsame
      obtain rfl := Option.some.inj hpackaged
      exact ⟨hsources, hreached.delivered hcandid hcareful hwritten⟩

end Told

end Results

/-! ### A build that packages -/

section Packages

variable {song : Song} {given : Except Failure Bytes} {result : Except Failure Result}

/-- What the assembler of the used host leaves: an image of one byte. -/
def assembledDisk (song : Song) : Disk :=
  (clearedDisk (sourcesOf song)).put ["song_sid.prg"] (.file [0] false)

theorem ran_usedHost (song : Song) : Ran localSettings ⟨"song_sid.asm"⟩ ⟨"song_sid.prg"⟩
    ((usedHost (["assembler"], .file [] true)).after (clearedDisk (sourcesOf song)) [])
    ⟨.exited 0, assembledDisk song, []⟩ :=
  ⟨⟨"./assembler"⟩, rfl, rfl⟩

theorem Reached.of_usedHost (hreached : Reached song ⟨"song.asm"⟩ localSettings
    (usedHost (["assembler"], .file [] true)) given d) :
    given = .ok [0] ∧ d = assembledDisk song := by
  obtain ⟨-, hprepared, hassembly⟩ := hreached
  obtain rfl := hprepared.unique (prepared_usedDisk _)
  rw [artifacts_song] at hassembly
  have hran := ran_usedHost song
  cases hassembly with
  | unavailable habsent =>
    obtain ⟨_, hlocated, -⟩ := hran
    exact nomatch hlocated.symm.trans habsent
  | notStarted hlocated hfailed =>
    obtain ⟨_, hlocated', hrun⟩ := hran
    obtain rfl := Option.some.inj (hlocated.symm.trans hlocated')
    exact nomatch hrun.symm.trans hfailed
  | failed hran' hended hnonzero =>
    obtain rfl := hran'.unique hran
    cases hended
    exact absurd rfl hnonzero
  | killed hran' hended | outOfTime hran' hended =>
    obtain rfl := hran'.unique hran
    cases hended
  | noImage hran' hended habsent =>
    obtain rfl := hran'.unique hran
    have hthere : (assembledDisk song).exists? [] ⟨"song_sid.prg"⟩ = true := rfl
    exact nomatch hthere.symm.trans habsent
  | unreadable hran' hended hfailed =>
    obtain rfl := hran'.unique hran
    have hread : (assembledDisk song).read [] ⟨"song_sid.prg"⟩ = .ok [0] := rfl
    exact nomatch hread.symm.trans hfailed
  | assembled hran' hended hread' =>
    obtain rfl := hran'.unique hran
    have hread : (assembledDisk song).read [] ⟨"song_sid.prg"⟩ = .ok [0] := rfl
    exact ⟨congrArg Except.ok (Except.ok.inj (hread'.symm.trans hread)), rfl⟩

/-- A build on the used host ends with a packaged file of its image of one byte. -/
theorem Course.of_usedHost (hcourse : Course song ⟨"song.asm"⟩ localSettings
    (usedHost (["assembler"], .file [] true)) result d) :
    result = .ok ⟨.ofOutput ⟨"song.asm"⟩, some (.ofContents ⟨"song.sid"⟩
      (packagedContents song [0]))⟩ := by
  cases hcourse with
  | shared hconflict =>
    rw [artifacts_song] at hconflict
    exact nomatch hconflict
  | halted _ hhalted => exact absurd hhalted (prepared_usedDisk _).not_halted
  | sourcesOnly hreached => exact nomatch hreached.of_usedHost.1
  | failed hreached => exact nomatch hreached.of_usedHost.1
  | unpackaged hreached hfailed =>
    obtain ⟨hgiven, rfl⟩ := hreached.of_usedHost
    obtain rfl := Except.ok.inj hgiven
    rw [artifacts_song] at hfailed
    generalize packagedContents song [0] = contents at hfailed
    have hwritten : (assembledDisk song).write [] ⟨"song.sid"⟩ contents =
      .ok ((assembledDisk song).put ["song.sid"] (.file contents false)) := rfl
    exact nomatch hwritten.symm.trans hfailed
  | packaged hreached =>
    obtain rfl := Except.ok.inj hreached.of_usedHost.1
    rw [artifacts_song]

private theorem Delivered.holds_of_usedHost {file : Packaged}
    (hdelivered :
      Delivered song ⟨"song.asm"⟩ localSettings (usedHost (["assembler"], .file [] true)) file d) :
    d.Holds [] ⟨"song.sid"⟩ (packagedContents song [0]) := by
  obtain ⟨before, outcome, image, hprepared, -, hran, -, hheld, -, hpackaged, -⟩ := hdelivered
  obtain rfl := hprepared.unique (prepared_usedDisk _)
  rw [artifacts_song] at hran hheld hpackaged
  obtain rfl := hran.unique (ran_usedHost song)
  obtain ⟨executable, hfound⟩ := hheld
  have hfound' : (assembledDisk song).find? [] ⟨"song_sid.prg"⟩ = .ok (.file [0] false) := rfl
  cases hfound'.symm.trans hfound
  exact hpackaged

end Packages

/-- **Results and the disk.** On a host whose programs change only what is at the path of their
output, and whose disk never denies having a file that is to be removed, the result of a build says
what is on the disk afterwards. -/
theorem result_tells_disk (song : Song) (output : Path) (s : Settings) (h : Host)
    (hcandid : ∀ place, h.disk.refusal .remove place ≠ some .notFound)
    (hcareful : ∀ contents program, h.load contents = some program → Careful program) :
    let run := (make song output s).run h
    Told song output s h run.1 run.2.disk := by
  obtain ⟨result, d, ⟨log, hrun⟩, hcourse⟩ := exists_course song output s h
  simp only [hrun, Host.after_disk]
  exact hcourse.told hcandid hcareful

/-- A build whose assembler writes an image of one byte, which is packaged; the assembler itself is
left as it is. -/
theorem result_tells_disk_byteWriter :
    let h := usedHost (["assembler"], .file [] true)
    (∀ place, h.disk.refusal .remove place ≠ some .notFound) ∧
    (∀ contents program, h.load contents = some program → Careful program) ∧
    let run := (make sampleSong ⟨"song.asm"⟩ localSettings).run h
    Told sampleSong ⟨"song.asm"⟩ localSettings h run.1 run.2.disk ∧
      run.2.disk.node? ["assembler"] = some (.file [] true) ∧
      (∃ r file, run.1 = .ok r ∧ r.packaged? = some file ∧
        Delivered sampleSong ⟨"song.asm"⟩ localSettings h file run.2.disk) ∧
      run.2.disk.Holds [] ⟨"song.sid"⟩ (packagedContents sampleSong [0]) := by
  intro h
  have hcandid (place : Location) : h.disk.refusal .remove place ≠ some .notFound := nofun
  have hcareful (contents : Bytes) (program : Host.Program)
      (hloaded : h.load contents = some program) : Careful program :=
    Option.some.inj hloaded ▸ careful_byteWriter
  have htold := result_tells_disk sampleSong ⟨"song.asm"⟩ localSettings h hcandid hcareful
  have hpackages : ((make sampleSong ⟨"song.asm"⟩ localSettings).run h).1 =
      .ok ⟨.ofOutput ⟨"song.asm"⟩, some (.ofContents ⟨"song.sid"⟩
        (packagedContents sampleSong [0]))⟩ := by
    obtain ⟨result, d, ⟨log, hrun⟩, hcourse⟩ :=
      exists_course sampleSong ⟨"song.asm"⟩ localSettings h
    rw [hrun]
    exact hcourse.of_usedHost
  have hdelivered := (htold.packaged _ _ hpackages rfl).2
  refine ⟨hcandid, hcareful, htold, ?_, ⟨_, _, hpackages, rfl, hdelivered⟩,
    hdelivered.holds_of_usedHost⟩
  rw [htold.elsewhere]
  · rfl
  · intro p hmem t hled hsame
    rw [artifacts_song] at hmem
    simp only [Artifacts.paths, List.mem_cons, List.not_mem_nil, or_false] at hmem
    rcases hmem with rfl | rfl | rfl | rfl
    all_goals
      obtain rfl := Except.ok.inj ((rfl : Except.ok _ = _).trans hled)
      exact absurd hsame (by decide)

end SidTune.Build
