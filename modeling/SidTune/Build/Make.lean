import SidTune.Blake3
import SidTune.Host.Basic
import SidTune.Psid.File
import SidTune.Text

/-!
# Building

All files of a build are named after the output path: the standalone source is written there, and
the library source, its image and the packaged file beside it, under the name without its extension.
A build writes the source texts of both layouts, removes what an earlier build may have left of the
image and the packaged file, assembles the library source, and packages the image. When there is no
assembler the build ends well after the source texts; any other failure ends it, the source texts
being kept.

The assembler is looked for at the path that the settings give, which is final; otherwise at the
path in the environment variable, if there is anything there; otherwise by its customary name in
the directories that are searched for programs. It is called with the path of the image it is to
write and the path of the source, and is given a limited time.

A build fails because a file cannot be read or written, because two of its files would be one, or
because of the assembler: it is not there, cannot be run, does not end in time, reports an error, or
leaves no image. That there is no assembler is told apart, because the source texts are useful
without one.

## Main definitions

* `SidTune.Build.Failure`: the failures, with `Failure.text`, `Failure.code` and `Failure.chain`.
* `SidTune.Build.Job`: what runs on a host and may fail.
* `SidTune.Build.Artifacts`: the four paths, with `Artifacts.ofOutput`.
* `SidTune.Build.Artifacts.conflict?`: a path that two of the files would share.
* `SidTune.Build.Settings`: how the assembler is found and run.
* `SidTune.Build.locate`: the path of the assembler.
* `SidTune.Build.assemble`: the image of a source.
* `SidTune.Build.Packaged`, `SidTune.Build.Result`: what a build gives.
* `SidTune.Build.make`: the build.
-/

namespace SidTune.Build

/-! ### Failures -/

/-- Why a build fails. -/
inductive Failure where
  | noAssembler
  | notStarted (cause : OsError)
  | outOfTime (seconds : Nat)
  | assemblerError (status : Int) (errors : String)
  | noImage (path : Path)
  | notWritten (path : Path) (cause : OsError)
  | sharedPath (path : Path)
  | unreadable (cause : OsError)
  deriving DecidableEq, Repr

namespace Failure

/-- The stable code of a failure. -/
def code : Failure → String
  | noAssembler => "SID_001"
  | notStarted _ => "SID_002"
  | outOfTime _ => "SID_003"
  | assemblerError .. => "SID_004"
  | noImage _ => "SID_005"
  | notWritten .. => "SID_006"
  | unreadable _ => "SID_007"
  | sharedPath _ => "SID_008"

/-- The kind of thing that fails. -/
def category : String := "sid"

/-- Whether the failure is only that there is no assembler. -/
def isUnavailable : Failure → Bool
  | noAssembler => true
  | _ => false

/-- The message of a failure. -/
def text : Failure → String
  | noAssembler =>
    "assembler not found. Install ACME and put it in PATH, or set SIDSONG_ASSEMBLER"
  | notStarted cause => "failed to spawn assembler: " ++ cause.text
  | outOfTime seconds => "assembler timed out after " ++ seconds.repr ++ " seconds"
  | assemblerError status errors =>
    "assembler exited with status " ++ status.repr ++ ": " ++ errors
  | noImage path => "expected assembler output not found: " ++ path.text
  | notWritten path cause => "failed to write " ++ path.text ++ ": " ++ cause.text
  | sharedPath path =>
    "output " ++ path.text
      ++ " would be overwritten by the packaged .sid; use a different extension"
  | unreadable cause => "IO error: " ++ cause.text

/-- The error of the operating system behind a failure. -/
def cause? : Failure → Option OsError
  | notStarted cause | notWritten _ cause | unreadable cause => some cause
  | _ => none

/-- The messages of a failure and of what is behind it. -/
def chain (f : Failure) : List String :=
  f.text :: (f.cause?.map OsError.text).toList

end Failure

/-! ### Jobs -/

/-- What runs on a host and may fail. What was done before a failure stays done. -/
abbrev Job (α : Type) := ExceptT Failure (StateM Host) α

/-- Adds a line to the log. -/
def note (level : Host.Level) (message : String) : Job Unit :=
  modify fun h => h.note level message

/-- Changes the disk, or fails. -/
def change (operation : Disk → Location → Except OsError Disk) (failure : OsError → Failure) :
    Job Unit := do
  let h ← get
  match operation h.disk h.working with
  | .ok disk => set { h with disk := disk }
  | .error error => throw (failure error)

/-! ### The files of a build -/

/-- The paths of the files of a build. -/
structure Artifacts where
  standaloneSource : Path
  librarySource : Path
  image : Path
  packaged : Path
  deriving DecidableEq, Repr

namespace Artifacts

/-- The paths of the files of a build with the given output path. -/
def ofOutput (output : Path) : Artifacts :=
  let stem := output.withoutExtension
  { standaloneSource := output
    librarySource := Path.ofChars stem "_sid.asm"
    image := Path.ofChars stem "_sid.prg"
    packaged := Path.ofChars stem ".sid" }

/-- The four paths in the order in which they are written. -/
def paths (a : Artifacts) : List Path :=
  [a.standaloneSource, a.librarySource, a.image, a.packaged]

end Artifacts

/-- The first of some paths that is the same as a later one. -/
def firstRepeated? : List Path → Option Path
  | [] => none
  | p :: rest => if rest.any p.same then some p else firstRepeated? rest

/-- A path that two of the files would share. -/
def Artifacts.conflict? (a : Artifacts) : Option Path :=
  firstRepeated? a.paths

/-- Fails if two of the files would be one. -/
def Artifacts.ensureDistinct (a : Artifacts) : Except Failure Unit :=
  match a.conflict? with
  | none => .ok ()
  | some path => .error (.sharedPath path)

/-! ### The assembler -/

/-- How the assembler is found and run. -/
structure Settings where
  /-- Where the assembler is, if that is given. -/
  assembler? : Option Path
  /-- How many seconds a run may take. -/
  timeLimit : Nat
  /-- Whether the error output is taken into the message about a failed run. -/
  captureErrors : Bool
  deriving DecidableEq, Repr

/-- The environment variable that may name an assembler. -/
def assemblerVariable : String := "SIDSONG_ASSEMBLER"

/-- The customary name of the assembler. -/
def assemblerName : String := "acme"

/-- The time that a run may take unless another is given. -/
def usualTimeLimit : Nat := 60

/-- The path in the environment variable, if there is anything there. -/
def variableChoice? (h : Host) : Option Path :=
  (h.assemblerVariable.map Path.mk).filter (h.disk.exists? h.working)

/-- The path of the assembler. -/
def locate (s : Settings) : Job Path := do
  let h ← get
  match s.assembler? with
  | some path =>
    if h.disk.exists? h.working path then return path
    note .warn ("configured assembler " ++ path.text ++ " does not exist")
    throw .noAssembler
  | none =>
    match variableChoice? h <|> h.search? assemblerName with
    | some path => return path
    | none => throw .noAssembler

/-- The arguments with which the assembler is called. -/
def arguments (source output : Path) : List String :=
  ["--format", "cbm", "--outfile", output.text, source.text]

/-- The error output of a run as text without blanks around it; what is not text counts as
nothing. -/
def errorText (s : Settings) (errors : Bytes) : String :=
  if s.captureErrors then Text.trim (errors.toText?.getD "") else ""

/-- Fails unless a run has ended well. -/
def checkEnding (s : Settings) (errors : Bytes) : Host.Ending → Job Unit
  | .exited 0 => return
  | .exited status => throw (.assemblerError status.toNat (errorText s errors))
  | .killed => throw (.assemblerError (-1) (errorText s errors))
  | .stillRunning => throw (.outOfTime s.timeLimit)

/-- The image of a source, which the assembler leaves at the path of the output. -/
def assemble (s : Settings) (source output : Path) : Job Bytes := do
  let assembler ← locate s
  note .info ("assembling " ++ source.text ++ " with " ++ assembler.text)
  let h ← get
  match h.run assembler (arguments source output) with
  | .error error => throw (.notStarted error)
  | .ok outcome =>
    let after := { h with disk := outcome.disk }
    set after
    checkEnding s outcome.errors outcome.ending
    if !after.disk.exists? after.working output then throw (.noImage output)
    match after.disk.read after.working output with
    | .error error => throw (.unreadable error)
    | .ok image => return image

/-! ### Results -/

/-- A packaged file: its path, its size and its hash in hexadecimal. -/
structure Packaged where
  path : Path
  size : Nat
  hash : String
  deriving DecidableEq, Repr

/-- What a build gives: the packaged file is missing if there was no assembler. -/
structure Result where
  artifacts : Artifacts
  packaged? : Option Packaged
  deriving DecidableEq, Repr

/-- The paths of the files that were written. -/
def Result.files (r : Result) : List Path :=
  [r.artifacts.standaloneSource, r.artifacts.librarySource]
    ++ match r.packaged? with
      | none => []
      | some _ => [r.artifacts.image, r.artifacts.packaged]

/-! ### Log lines -/

/-- The number `n`, below eight, as three binary digits. -/
def binaryText (n : UInt8) : String :=
  let digits := Nat.toDigits 2 n.toNat
  "0b" ++ String.ofList (List.replicate (3 - digits.length) '0' ++ digits)

/-- A byte as two hexadecimal digits. -/
def byteText (b : UInt8) : String :=
  "0x" ++ String.ofList (hexByte b)

/-- The line about a track. -/
def trackLine (t : Track) : String :=
  "compiled " ++ Named.name t.role ++ " voice: " ++ t.length.repr
    ++ " steps, first audible step " ++ t.start.repr

/-- The lines about a tune, in the order in which its parts are made ready. -/
def tuneLines (t : Tune) : List String :=
  let f := t.filter
  let cutoff := f.cutoff.toNat.repr
  let resonance := f.resonance.toNat.repr
  t.tracks.toList.map trackLine
    ++ ["reconciled filter: cutoff=" ++ cutoff ++ " resonance=" ++ resonance
          ++ " routing=" ++ binaryText f.routing ++ " mode=" ++ byteText f.mode,
        t.bpm.repr ++ " BPM -> " ++ t.beatTicks.repr ++ " ticks per beat",
        "filter: cutoff " ++ cutoff ++ " resonance " ++ resonance
          ++ " routing " ++ binaryText f.routing ++ " mode " ++ byteText f.mode]

/-! ### The build -/

/-- Writes a file. -/
def store (path : Path) (contents : Bytes) : Job Unit :=
  change (fun disk working => disk.write working path contents) (.notWritten path)

/-- Writes a source text. -/
def writeSource (path : Path) (text : String) : Job Unit := do
  store path (Bytes.ofText text)
  note .info ("wrote " ++ path.text)

/-- Removes a file that an earlier build may have left. -/
def discard (path : Path) : Job Unit := do
  let h ← get
  match h.disk.remove h.working path with
  | .ok disk =>
    set { h with disk := disk }
    note .debug ("removed stale " ++ path.text)
  | .error .notFound => return
  | .error error => throw (.notWritten path error)

/-- Packages an image. -/
def packageImage (path : Path) (image : Bytes) (m : Psid.Metadata) : Job Packaged := do
  if !Psid.hasLoadAddress image then
    note .debug "image has no load address, prepending $1000"
  let file := Psid.package image m
  store path file
  note .info ("wrote " ++ path.text ++ " (" ++ file.length.repr ++ " bytes)")
  return ⟨path, file.length, (Blake3.hash file).toHex⟩

/-- The image of the library source, or nothing if there is no assembler. -/
def assembleIfAvailable (s : Settings) (a : Artifacts) : Job (Option Bytes) :=
  tryCatch (some <$> assemble s a.librarySource a.image) fun failure => do
    if !failure.isUnavailable then throw failure
    note .warn (failure.text ++ "; skipping " ++ a.packaged.text)
    return none

/-- Builds a song. -/
def make (song : Song) (output : Path) (s : Settings) : Job Result := do
  let artifacts := Artifacts.ofOutput output
  liftExcept artifacts.ensureDistinct
  let tune := Tune.ofSong song
  (tuneLines tune).forM (note .debug)
  let sources := Player.Sources.ofTune tune
  writeSource artifacts.standaloneSource sources.standalone
  writeSource artifacts.librarySource sources.library
  discard artifacts.image
  discard artifacts.packaged
  match ← assembleIfAvailable s artifacts with
  | none => return ⟨artifacts, none⟩
  | some image =>
    let packaged ← packageImage artifacts.packaged image (Psid.Metadata.ofSong song)
    return ⟨artifacts, some packaged⟩
where
  liftExcept : Except Failure Unit → Job Unit
    | .ok () => return
    | .error failure => throw failure

end SidTune.Build
