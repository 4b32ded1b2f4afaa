import SidTune.Proofs.Build.Course
import SidTune.Proofs.Host.Disk
import SidTune.Proofs.Song.Given

/-!
# What earlier builds leave

A build clears away the image and the packaged file of an earlier one after it has written its
sources. Once they are cleared away nothing old comes back, however the assembler ends: the packaged
file is missing or is the one of this build, and what is at the path of the image has been left by a
program of this build. But a build that is halted between its first source and the end of the
clearing leaves old files beside the new source.

## Main definitions

* `SidTune.Build.Careful`: programs that change nothing but what is at the path of their output.
* `SidTune.Build.Fresh`: disks on which neither an image nor a packaged file of an earlier build is
  left.

## Main results

* `SidTune.Build.fresh_unless_halted`: a build that starts leaves nothing of an earlier build,
  unless it is halted before all is cleared away.
* `SidTune.Build.stale_beside_directory`: a build that is halted so.
-/

namespace SidTune.Build

open Disk

variable {d d' : Disk} {working : Location} {p : Path}

/-! ### Clearing -/

/-- Clearing a path leaves nothing at the place to which it leads, and everything else as it was. -/
theorem Cleared.spec (hcleared : Cleared d working p d') {directory : Location} {name : String}
    (hleads : d.Leads working p directory name)
    (hcandid : ∀ place, d.refusal .remove place ≠ some .notFound) :
    d'.node? (directory ++ [name]) = none ∧ SameOff (directory ++ [name]) d d' ∧
      d.node? (directory ++ [name]) ≠ some .directory ∧ d'.refusal = d.refusal := by
  cases hcleared with
  | removed hremoved =>
    obtain ⟨directory', name', hleads', hfile, rfl⟩ := exists_of_remove hremoved
    obtain ⟨rfl, rfl⟩ := hleads.unique hleads'
    refine ⟨?_, sameOff_erase d _, hfile, rfl⟩
    rw [node?_erase d (by simp), if_pos rfl]
  | missing hmissing =>
    have hnone := hleads.node?_of_remove hcandid hmissing
    exact ⟨hnone, fun _ _ => rfl, by simp [hnone], rfl⟩

/-- A disk on which an image and a packaged file may be written beside each other, and neither is
there. -/
structure Clear (a : Artifacts) (working : Location) (d : Disk) (directory : Location)
    (imageName packagedName : String) : Prop where
  apart : packagedName ≠ imageName
  image : d.Leads working a.image directory imageName
  packaged : d.Leads working a.packaged directory packagedName
  noImage : d.node? (directory ++ [imageName]) = none
  noPackaged : d.node? (directory ++ [packagedName]) = none

theorem place_ne {directory : Location} {name name' : String} (hapart : name ≠ name') :
    directory ++ [name] ≠ directory ++ [name'] := by
  simpa using hapart

theorem extends_library : Path.Extends "_sid.asm" := ⟨by decide, by decide, by decide⟩

theorem extends_image : Path.Extends "_sid.prg" := ⟨by decide, by decide, by decide⟩

theorem extends_packaged : Path.Extends ".sid" := ⟨by decide, by decide, by decide⟩

/-- When the assembler is looked for, neither an image nor a packaged file is there. -/
theorem Prepared.clear {sources : Player.Sources} {output : Path}
    (hprepared : Prepared sources (.ofOutput output) working d d')
    (hcandid : ∀ place, d.refusal .remove place ≠ some .notFound) :
    ∃ directory imageName packagedName,
      Clear (.ofOutput output) working d' directory imageName packagedName := by
  obtain @⟨d₁, d₂, d₃, _, hstandalone, hlibrary, himage, hpackaged⟩ := hprepared
  obtain ⟨_, _, _, -, -, hwritten⟩ := exists_of_write hstandalone
  obtain ⟨directory, name, executable, hleads, hfile, hwritten'⟩ := exists_of_write hlibrary
  have hcandid₂ (place : Location) : d₂.refusal .remove place ≠ some .notFound := by
    rw [hwritten', hwritten]
    exact hcandid place
  have hkept : SameOff (directory ++ [name]) d₁ d₂ := hwritten' ▸ sameOff_put d₁ _ _
  have hleads := hleads.sameOff hkept hfile
  have hleadsImage := hleads.ofChars extends_library extends_image (by decide)
  have hleadsPackaged := hleads.ofChars extends_library extends_packaged (by decide)
  obtain ⟨hnoImage, hsame, hfile, hrefusal⟩ := himage.spec hleadsImage hcandid₂
  have hleadsImage := hleadsImage.sameOff hsame hfile
  have hleadsPackaged := hleadsPackaged.sameOff hsame hfile
  obtain ⟨hnoPackaged, hsame, hfile, -⟩ := hpackaged.spec hleadsPackaged (hrefusal ▸ hcandid₂)
  have hapart : continued output.withoutExtension ".sid" ≠
      continued output.withoutExtension "_sid.prg" := continued_ne (by decide)
  refine ⟨directory, _, _, hapart, hleadsImage.sameOff hsame hfile,
    hleadsPackaged.sameOff hsame hfile, ?_, hnoPackaged⟩
  rw [hsame _ (place_ne hapart.symm), hnoImage]

/-! ### The assembler -/

/-- A program that changes nothing but what is at the path of its output. -/
def Careful (program : Host.Program) : Prop :=
  ∀ (call : Host.Call) (d : Disk) (place : Location),
    (∀ output t, call.arguments[3]? = some output → d.target call.working ⟨output⟩ = .ok t →
      t.place ≠ place) → (program call d).disk.node? place = d.node? place

/-- A careful program changes the disk at the place to which its output leads, if at all. -/
theorem Careful.sameOff {program : Host.Program} (hcareful : Careful program) {call : Host.Call}
    {directory : Location} {name : String} (houtput : call.arguments[3]? = some p.text)
    (hleads : d.Leads call.working p directory name) :
    SameOff (directory ++ [name]) d (program call d).disk := by
  intro place hapart
  refine hcareful call d place fun text t hnamed htarget => ?_
  obtain rfl : p.text = text := Option.some.inj (houtput.symm.trans hnamed)
  obtain rfl := Except.ok.inj (hleads.target.symm.trans htarget)
  exact hapart.symm

/-- A program of a host, called to assemble the library source of a build. -/
structure Called (h : Host) (a : Artifacts) (program : Host.Program) (call : Host.Call) : Prop where
  loaded : ∃ contents, h.load contents = some program
  working : call.working = h.working
  arguments : call.arguments = arguments a.librarySource a.image

/-- What has run is a program of the host, on its disk. -/
theorem exists_called {h : Host} {a : Artifacts} {assembler : Path} {outcome : Host.Outcome}
    (hrun : h.run assembler (arguments a.librarySource a.image) = .ok outcome) :
    ∃ program call, Called h a program call ∧ outcome = program call h.disk := by
  unfold Host.run at hrun
  split at hrun
  · cases hrun
  obtain ⟨⟨place, contents⟩, -, hrun⟩ := Except.bind_eq_ok.1 hrun
  dsimp only at hrun
  split at hrun
  · cases hrun
  cases hloaded : h.load contents with
  | none =>
    rw [hloaded] at hrun
    cases hrun
  | some program =>
    rw [hloaded] at hrun
    exact ⟨program, _, ⟨⟨contents, hloaded⟩, rfl, rfl⟩, (Except.pure_eq_ok.1 hrun).symm⟩

/-- The step of the assembler leaves the disk as it was, or as a program of the host leaves it. -/
theorem Assembly.disk_eq {s : Settings} {h : Host} {a : Artifacts} {given : Except Failure Bytes}
    (hassembly : Assembly s a.librarySource a.image h given d) :
    d = h.disk ∨ ∃ program call, Called h a program call ∧ d = (program call h.disk).disk := by
  have hran {outcome : Host.Outcome} : Ran s a.librarySource a.image h outcome →
      ∃ program call, Called h a program call ∧ outcome.disk = (program call h.disk).disk := by
    rintro ⟨assembler, -, hrun⟩
    obtain ⟨program, call, hcalled, rfl⟩ := exists_called hrun
    exact ⟨program, call, hcalled, rfl⟩
  cases hassembly with
  | unavailable => exact .inl rfl
  | notStarted => exact .inl rfl
  | failed hrun => exact .inr (hran hrun)
  | killed hrun => exact .inr (hran hrun)
  | outOfTime hrun => exact .inr (hran hrun)
  | noImage hrun => exact .inr (hran hrun)
  | unreadable hrun => exact .inr (hran hrun)
  | assembled hrun => exact .inr (hran hrun)

/-! ### What is left -/

section Builds

variable (song : Song) (output : Path) (h : Host)

/-- What is at the path of the image is nothing, or has been left by a program that was called in
this build, when nothing was there. -/
def ImageMade (d : Disk) : Prop :=
  d.find? h.working (Artifacts.ofOutput output).image = .error .notFound ∨
    ∃ before program call,
      Prepared (sourcesOf song) (.ofOutput output) h.working h.disk before ∧
      before.find? h.working (Artifacts.ofOutput output).image = .error .notFound ∧
      Called h (.ofOutput output) program call ∧
      d.find? h.working (Artifacts.ofOutput output).image =
        (program call before).disk.find? h.working (Artifacts.ofOutput output).image

/-- What is at the path of the packaged file is nothing, or is the file that a build has told of,
beside the image that it packages. -/
def PackagedMade (result : Except Failure Result) (d : Disk) : Prop :=
  d.find? h.working (Artifacts.ofOutput output).packaged = .error .notFound ∨
    ∃ image, d.Holds h.working (Artifacts.ofOutput output).image image ∧
      d.Holds h.working (Artifacts.ofOutput output).packaged (packagedContents song image) ∧
      result = .ok ⟨.ofOutput output,
        some (.ofContents (Artifacts.ofOutput output).packaged (packagedContents song image))⟩

/-- A disk on which neither an image nor a packaged file of an earlier build is left. -/
structure Fresh (result : Except Failure Result) (d : Disk) : Prop where
  image : ImageMade song output h d
  packaged : PackagedMade song output h result d

variable {song output h} {s : Settings} {given : Except Failure Bytes}

/-- What the assembler gives as an image is held at the path of the image. -/
theorem Reached.holds {image : Bytes} (hreached : Reached song output s h (.ok image) d) :
    d.Holds h.working (Artifacts.ofOutput output).image image := by
  obtain ⟨-, -, hassembly⟩ := hreached
  cases hassembly with
  | assembled _ _ hread => exact holds_of_read hread

/-- After the step of the assembler there is no packaged file, and no image of an earlier build. -/
theorem Reached.made (hreached : Reached song output s h given d)
    (hcandid : ∀ place, h.disk.refusal .remove place ≠ some .notFound)
    (hcareful : ∀ contents program, h.load contents = some program → Careful program) :
    ∃ directory imageName packagedName, packagedName ≠ imageName ∧
      d.Leads h.working (Artifacts.ofOutput output).image directory imageName ∧
      d.Leads h.working (Artifacts.ofOutput output).packaged directory packagedName ∧
      d.node? (directory ++ [packagedName]) = none ∧ ImageMade song output h d := by
  obtain @⟨before, _, -, hprepared, hassembly⟩ := hreached
  obtain ⟨directory, imageName, packagedName, hclear⟩ := hprepared.clear hcandid
  have hmissing : before.find? h.working (Artifacts.ofOutput output).image = .error .notFound := by
    rw [hclear.image.find?_eq, hclear.noImage]
  refine ⟨directory, imageName, packagedName, hclear.apart, ?_⟩
  rcases hassembly.disk_eq with hunchanged | ⟨program, call, hcalled, rfl⟩
  · obtain rfl : d = before := hunchanged
    exact ⟨hclear.image, hclear.packaged, hclear.noPackaged, .inl hmissing⟩
  · obtain ⟨contents, hloaded⟩ := hcalled.loaded
    have houtput : call.arguments[3]? = some (Artifacts.ofOutput output).image.text := by
      rw [hcalled.arguments]
      rfl
    -- A careful program touches the place of its output only, which is where the image goes.
    have hsame : SameOff (directory ++ [imageName]) before (program call before).disk :=
      (hcareful contents program hloaded).sameOff houtput
        ((show call.working = h.working from hcalled.working) ▸ hclear.image)
    have hfile : before.node? (directory ++ [imageName]) ≠ some .directory := by
      simp [hclear.noImage]
    refine ⟨hclear.image.sameOff hsame hfile, hclear.packaged.sameOff hsame hfile, ?_,
      .inr ⟨before, program, call, hprepared, hmissing, ⟨⟨contents, hloaded⟩, hcalled.working,
        hcalled.arguments⟩, rfl⟩⟩
    exact (hsame _ (place_ne hclear.apart)).trans hclear.noPackaged

/-- Nothing of an earlier build is left by one that comes as far as the assembler and then ends
without a packaged file. -/
theorem Reached.fresh (hreached : Reached song output s h given d)
    (hcandid : ∀ place, h.disk.refusal .remove place ≠ some .notFound)
    (hcareful : ∀ contents program, h.load contents = some program → Careful program)
    (result : Except Failure Result) : Fresh song output h result d := by
  obtain ⟨directory, imageName, packagedName, -, -, hpackaged, hnoPackaged, hmade⟩ :=
    hreached.made hcandid hcareful
  refine ⟨hmade, .inl ?_⟩
  rw [hpackaged.find?_eq, hnoPackaged]

/-- Nothing of an earlier build is left by one that ends with a packaged file. -/
theorem Reached.fresh_packaged {image : Bytes} (hreached : Reached song output s h (.ok image) d)
    (hcandid : ∀ place, h.disk.refusal .remove place ≠ some .notFound)
    (hcareful : ∀ contents program, h.load contents = some program → Careful program)
    (hwritten : d.write h.working (Artifacts.ofOutput output).packaged
      (packagedContents song image) = .ok d') :
    Fresh song output h (.ok ⟨.ofOutput output, some (.ofContents
      (Artifacts.ofOutput output).packaged (packagedContents song image))⟩) d' := by
  obtain ⟨directory, imageName, packagedName, hapart, hleadsImage, hleadsPackaged, hnoPackaged,
    hmade⟩ := hreached.made hcandid hcareful
  obtain ⟨directory', name, executable, hleads, hfile, hput⟩ := exists_of_write hwritten
  obtain ⟨rfl, rfl⟩ := hleadsPackaged.unique hleads
  have hsame : SameOff (directory ++ [packagedName]) d d' := hput ▸ sameOff_put d _ _
  have hkept : d'.find? h.working (Artifacts.ofOutput output).image =
      d.find? h.working (Artifacts.ofOutput output).image := by
    rw [(hleadsImage.sameOff hsame hfile).find?_eq, hleadsImage.find?_eq,
      hsame _ (place_ne hapart.symm)]
  have hthere : d'.node? (directory ++ [packagedName]) =
      some (.file (packagedContents song image) executable) := by
    rw [hput, node?_put d _ (by simp), if_pos rfl]
  refine ⟨?_, .inr ⟨image, ?_, ⟨executable, ?_⟩, rfl⟩⟩
  · simpa only [ImageMade, hkept] using hmade
  · simpa only [Holds, hkept] using hreached.holds
  · rw [(hleadsPackaged.sameOff hsame hfile).find?_eq, hthere]

/-- **Fresh artifacts.** On a host whose programs change only what is at the path of their output,
and whose disk never denies having a file that is to be removed, a build that starts to write leaves
neither an image nor a packaged file of an earlier build, however it ends, unless it is halted while
it writes the sources and clears the way. -/
theorem fresh_unless_halted (song : Song) (output : Path) (s : Settings) (h : Host)
    (hcandid : ∀ place, h.disk.refusal .remove place ≠ some .notFound)
    (hcareful : ∀ contents program, h.load contents = some program → Careful program) :
    let run := (make song output s).run h
    (∃ path, (Artifacts.ofOutput output).conflict? = some path ∧
      run.1 = .error (.sharedPath path) ∧ run.2.disk = h.disk) ∨
    (∃ path cause, run.1 = .error (.notWritten path cause) ∧
      Halted (sourcesOf song) (.ofOutput output) h.working h.disk path cause run.2.disk) ∨
    Fresh song output h run.1 run.2.disk := by
  obtain ⟨result, d, ⟨log, hrun⟩, hcourse⟩ := exists_course song output s h
  simp only [hrun, Host.after_disk]
  cases hcourse with
  | shared hconflict => exact .inl ⟨_, hconflict, rfl, rfl⟩
  | halted _ hhalted => exact .inr (.inl ⟨_, _, rfl, hhalted⟩)
  | sourcesOnly hreached => exact .inr (.inr (hreached.fresh hcandid hcareful _))
  | failed hreached => exact .inr (.inr (hreached.fresh hcandid hcareful _))
  | unpackaged hreached => exact .inr (.inr (hreached.fresh hcandid hcareful _))
  | packaged hreached hwritten =>
    exact .inr (.inr (hreached.fresh_packaged hcandid hcareful hwritten))

end Builds

/-! ### Two builds -/

/-- A program that writes one byte at the path of its output, if it can. -/
def byteWriter : Host.Program := fun call d =>
  match call.arguments[3]? with
  | none => ⟨.exited 1, d, []⟩
  | some output => ⟨.exited 0, (d.write call.working ⟨output⟩ [0]).toOption.getD d, []⟩

theorem careful_byteWriter : Careful byteWriter := by
  intro call d place hapart
  unfold byteWriter
  cases hnamed : call.arguments[3]? with
  | none => rfl
  | some output =>
  dsimp only
  cases hwritten : d.write call.working ⟨output⟩ [0] with
  | error cause => rfl
  | ok d' =>
    obtain ⟨directory, name, executable, hleads, -, hput⟩ := exists_of_write hwritten
    have hother : place ≠ directory ++ [name] := (hapart output _ hnamed hleads.target).symm
    exact hput ▸ sameOff_put d _ _ place hother

/-- A disk with what an earlier build has left of a song, and something else. -/
def usedDisk (other : Location × Node) : Disk where
  entries := [other, (["song.sid"], .file [0] false), (["song_sid.prg"], .file [0] false)]

/-- A host with such a disk, on which every executable file writes one byte. -/
def usedHost (other : Location × Node) : Host where
  disk := usedDisk other
  working := []
  assemblerVariable := none
  searchPath := []
  load := fun _ => some byteWriter
  log := []

/-- The settings of a build that calls the executable file of the working directory. -/
def localSettings : Settings :=
  ⟨some ⟨"./assembler"⟩, 60, true⟩

theorem artifacts_song : Artifacts.ofOutput ⟨"song.asm"⟩ =
    ⟨⟨"song.asm"⟩, ⟨"song_sid.asm"⟩, ⟨"song_sid.prg"⟩, ⟨"song.sid"⟩⟩ := by
  decide

/-- The disk with an executable file once the sources are written and the way is cleared. -/
def clearedDisk (sources : Player.Sources) : Disk where
  entries := [(["song_sid.asm"], .file (Bytes.ofText sources.library) false),
    (["song.asm"], .file (Bytes.ofText sources.standalone) false), (["assembler"], .file [] true)]

/-- A build on the disk with an executable file comes as far as the assembler. -/
theorem prepared_usedDisk (sources : Player.Sources) :
    Prepared sources (.ofOutput ⟨"song.asm"⟩) [] (usedDisk (["assembler"], .file [] true))
      (clearedDisk sources) := by
  let d₁ := (usedDisk (["assembler"], .file [] true)).put ["song.asm"]
    (.file (Bytes.ofText sources.standalone) false)
  let d₂ := d₁.put ["song_sid.asm"] (.file (Bytes.ofText sources.library) false)
  rw [artifacts_song]
  have hstandalone : (usedDisk (["assembler"], .file [] true)).write [] ⟨"song.asm"⟩
      (Bytes.ofText sources.standalone) = .ok d₁ := rfl
  have hlibrary : d₁.write [] ⟨"song_sid.asm"⟩ (Bytes.ofText sources.library) = .ok d₂ := rfl
  have himage : d₂.remove [] ⟨"song_sid.prg"⟩ = .ok (d₂.erase ["song_sid.prg"]) := rfl
  exact .intro hstandalone hlibrary (.removed himage) (.removed rfl)

theorem fresh_unless_halted_byteWriter :
    let h := usedHost (["assembler"], .file [] true)
    (∀ place, h.disk.refusal .remove place ≠ some .notFound) ∧
    (∀ contents program, h.load contents = some program → Careful program) ∧
    let run := (make sampleSong ⟨"song.asm"⟩ localSettings).run h
    Fresh sampleSong ⟨"song.asm"⟩ h run.1 run.2.disk := by
  intro h
  have hcandid (place : Location) : h.disk.refusal .remove place ≠ some .notFound := nofun
  have hcareful (contents : Bytes) (program : Host.Program)
      (hloaded : h.load contents = some program) : Careful program :=
    Option.some.inj hloaded ▸ careful_byteWriter
  refine ⟨hcandid, hcareful, ?_⟩
  rcases fresh_unless_halted sampleSong ⟨"song.asm"⟩ localSettings h hcandid hcareful with
    ⟨path, hconflict, -⟩ | ⟨path, cause, -, hhalted⟩ | hfresh
  · rw [artifacts_song] at hconflict
    exact nomatch hconflict
  · exact absurd hhalted (prepared_usedDisk _).not_halted
  · exact hfresh

theorem write_library_usedDisk {contents contents' : Bytes} {d₁ d₂ : Disk}
    (hstandalone : (usedDisk (["song_sid.asm"], .directory)).write [] ⟨"song.asm"⟩ contents =
      .ok d₁) : d₁.write [] ⟨"song_sid.asm"⟩ contents' ≠ .ok d₂ := by
  obtain rfl := Except.ok.inj ((rfl : Except.ok _ = _).trans hstandalone)
  exact fun hlibrary => nomatch (rfl : Except.error _ = _).trans hlibrary

/-- A directory in place of the library source halts a build after the standalone source. -/
theorem halted_usedDisk {sources : Player.Sources} {path : Path} {cause : OsError} {d : Disk}
    (hhalted : Halted sources (.ofOutput ⟨"song.asm"⟩) [] (usedDisk (["song_sid.asm"], .directory))
      path cause d) : path = ⟨"song_sid.asm"⟩ ∧ cause = .isADirectory ∧
        d = (usedDisk (["song_sid.asm"], .directory)).put ["song.asm"]
          (.file (Bytes.ofText sources.standalone) false) := by
  rw [artifacts_song] at hhalted
  cases hhalted with
  | standalone hfailed => exact nomatch (rfl : Except.ok _ = _).trans hfailed
  | library hstandalone hfailed =>
    obtain rfl := Except.ok.inj ((rfl : Except.ok _ = _).trans hstandalone)
    have hdirectory : Except.error OsError.isADirectory = Except.error cause := hfailed
    exact ⟨rfl, (Except.error.inj hdirectory).symm, rfl⟩
  | image hstandalone hlibrary => exact absurd hlibrary (write_library_usedDisk hstandalone)
  | packaged hstandalone hlibrary => exact absurd hlibrary (write_library_usedDisk hstandalone)

/-- No build comes as far as the assembler past such a directory. -/
theorem not_reached_usedHost {song : Song} {s : Settings} {given : Except Failure Bytes}
    {d : Disk} :
    ¬ Reached song ⟨"song.asm"⟩ s (usedHost (["song_sid.asm"], .directory)) given d := by
  rintro ⟨-, ⟨hstandalone, hlibrary, -, -⟩, -⟩
  rw [artifacts_song] at hstandalone hlibrary
  exact write_library_usedDisk hstandalone hlibrary

/-- A directory in place of the library source halts a build, which leaves the packaged file and the
image of an earlier build beside the new standalone source. -/
theorem stale_beside_directory :
    let h := usedHost (["song_sid.asm"], .directory)
    let run := (make sampleSong ⟨"song.asm"⟩ localSettings).run h
    run.1 = .error (.notWritten ⟨"song_sid.asm"⟩ .isADirectory) ∧
      h.disk.find? [] ⟨"song.asm"⟩ = .error .notFound ∧
      run.2.disk.Holds [] ⟨"song.asm"⟩ (Bytes.ofText (sourcesOf sampleSong).standalone) ∧
      run.2.disk.Holds [] ⟨"song.sid"⟩ [0] ∧ run.2.disk.Holds [] ⟨"song_sid.prg"⟩ [0] ∧
      ¬ Fresh sampleSong ⟨"song.asm"⟩ h run.1 run.2.disk := by
  intro h
  obtain ⟨result, d, ⟨log, hrun⟩, hcourse⟩ := exists_course sampleSong ⟨"song.asm"⟩ localSettings h
  simp only [hrun, Host.after_disk]
  cases hcourse with
  | shared hconflict =>
    rw [artifacts_song] at hconflict
    exact nomatch hconflict
  | halted _ hhalted =>
    obtain ⟨rfl, rfl, rfl⟩ := halted_usedDisk hhalted
    generalize Bytes.ofText (sourcesOf sampleSong).standalone = contents
    refine ⟨rfl, rfl, ⟨false, rfl⟩, ⟨false, rfl⟩, ⟨false, rfl⟩, fun hfresh => ?_⟩
    rcases hfresh.packaged with hmissing | ⟨image, -, -, hpackaged⟩
    · rw [artifacts_song] at hmissing
      exact nomatch hmissing
    · exact nomatch hpackaged
  | sourcesOnly hreached => exact absurd hreached not_reached_usedHost
  | failed hreached => exact absurd hreached not_reached_usedHost
  | unpackaged hreached => exact absurd hreached not_reached_usedHost
  | packaged hreached => exact absurd hreached not_reached_usedHost

end SidTune.Build
