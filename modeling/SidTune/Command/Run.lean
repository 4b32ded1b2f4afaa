import SidTune.Build.Make
import SidTune.Command.Console
import SidTune.Command.Options
import SidTune.Host.Basic
import SidTune.Song.Document

/-!
# Commands

A command reads its song from a file. That the file cannot be read, or is not JSON, is a failure of
the command; that the document breaks a rule is a finding, which is reported. Checking tells what
the song is, or which rule it breaks; nothing is written. Compiling makes the directory of the
output, and builds. An error that the assembler reports is told with the sources that were kept; any
other failure of the build is a failure of the command. A command line is run on a host and gives a
status, what is printed, and what is printed as an error. A wrong command line has status two.

## Main definitions

* `SidTune.Host.readText`: the text of a file.
* `SidTune.Host.LoadError`, `SidTune.Host.songAt`: the song in a file.
* `SidTune.Command.Finding`, `SidTune.Command.readSong`: the song in a file, or the rule it breaks.
* `SidTune.Command.violationSpans`: the report of a broken rule.
* `SidTune.Command.check`, `SidTune.Command.compile`: the two commands.
* `SidTune.Command.Printed`: what a run prints and its status.
* `SidTune.Command.run`: the run of a command line.
-/

namespace SidTune.Host

/-! ### Songs in files -/

/-- The text of a file. -/
def readText (h : Host) (p : Path) : Except OsError String := do
  match (← h.disk.read h.working p).toText? with
  | some text => .ok text
  | none => .error .notText

/-- Why a file gives no song. -/
inductive LoadError where
  | unreadable (cause : OsError)
  | document (cause : DocumentError)
  deriving Repr

/-- The message about a file that gives no song. -/
def LoadError.text : LoadError → String
  | unreadable cause => "I/O error: " ++ cause.text
  | document cause => cause.text

/-- The song in a file. -/
def songAt (h : Host) (p : Path) : Except LoadError Song :=
  match h.readText p with
  | .error cause => .error (.unreadable cause)
  | .ok text => (Song.parse text).mapError .document

end SidTune.Host

namespace SidTune.Command

/-! ### Findings -/

/-- The song of a readable JSON file, or the rule it breaks. -/
inductive Finding where
  | valid (song : Song)
  | invalid (rejection : Rejection)

/-- The line of the log about a finding. -/
def Finding.line (p : Path) : Finding → String
  | valid _ => p.text ++ " is a valid song"
  | invalid rejection => p.text ++ " failed validation: " ++ rejection.report.text

/-- The finding about a file, or the messages of the failure to read it. -/
def readSong (h : Host) (p : Path) : Except (List String) Finding :=
  match h.readText p with
  | .error cause => .error ["failed to read song file: " ++ p.text, cause.text]
  | .ok text =>
    match Json.parse text with
    | .error problem => .error ["failed to parse song file as JSON: " ++ p.text, problem.text]
    | .ok document =>
      match Song.ofJson document with
      | .ok song => .ok (.valid song)
      | .error rejection => .ok (.invalid rejection)

/-! ### Reports -/

/-- The report of a broken rule. -/
def violationSpans (rejection : Rejection) : List Span :=
  let report := rejection.report
  [.plain "\n", .styled (.bold .red) "Errors:", .plain "\n  ", .styled (.coloured .red) "x",
    .plain " [", .styled (.coloured .red) report.rule.code, .plain "]",
    .styled .dimmed ((report.path?.map (" at " ++ ·)).getD ""),
    .plain (": " ++ report.message ++ "\n")]

/-- The last line about a document that breaks a rule. -/
def rejectedSpans (text : String) : List Span :=
  .plain "\n" :: headed (.bold .red) "FAILED" text

/-! ### Checking -/

/-- The lines about a song. -/
def songSpans (song : Song) : List Span :=
  headed .dimmed "Song:"
      (song.tempo.bpm.repr ++ " BPM, key " ++ Named.name song.key ++ ", " ++ Named.name song.scale)
    ++ song.voices.toList.flatMap fun voice =>
      .plain "  " :: headed .dimmed "-"
        (Named.name voice.role ++ " " ++ Named.name voice.waveform ++ " ("
          ++ voice.steps.length.repr ++ " steps)")

/-- Checks the song in a file: the status is zero if it is valid and one if it breaks a rule. -/
def check (input : Path) (h : Host) : Result × Host :=
  let heading := headed (.bold .cyan) "Checking:" input.text
  match readSong h input with
  | .error chain => (⟨heading, .failed chain⟩, h)
  | .ok found =>
    let h := h.note .debug (found.line input)
    match found with
    | .valid song =>
      (⟨heading ++ songSpans song ++ [.plain "\n", .styled (.bold .green) "SUCCESS",
          .plain " Song is valid (", .elapsed, .plain "ms)\n"], .exit 0⟩, h)
    | .invalid rejection =>
      (⟨heading ++ violationSpans rejection ++ rejectedSpans "Song is invalid", .exit 1⟩, h)

/-! ### Compiling -/

/-- The lines about a finished build. -/
def builtSpans (r : Build.Result) : List Span :=
  (r.files.flatMap fun path => .plain "  " :: headed (.coloured .green) "+" path.text)
    ++ match r.packaged? with
      | some packaged =>
        headed .dimmed "BLAKE3:" packaged.hash
          ++ [.plain "\n", .styled (.bold .green) "SUCCESS",
            .plain (" Packaged " ++ packaged.size.repr ++ " bytes in "), .elapsed, .plain "ms\n"]
      | none =>
        .plain "\n" :: headed (.bold .yellow) "WARNING"
          ("Assembler not found, wrote assembly sources only (set " ++ Build.assemblerVariable
            ++ " or install acme)")

/-- The lines about an error that the assembler reports, and how the command ends for a failure. -/
def failureResult (output : Path) (failure : Build.Failure) : Result :=
  match failure with
  | .assemblerError .. =>
    ⟨[.plain "\n", .styled (.bold .red) "ASSEMBLY FAILED", .plain " [",
        .styled (.coloured .red) failure.code, .plain ("] " ++ failure.text ++ "\n")]
      ++ headed .dimmed "Sources kept:" output.text, .exit 1⟩
  | failure => ⟨[], .failed ("compilation failed" :: failure.chain)⟩

/-- Makes the directory of the output path, if the path names one. -/
def makeOutputDirectory (output : Path) (h : Host) : Except (List String) Unit × Host :=
  match output.parent?.filter fun directory => directory.text ≠ "" with
  | none => (.ok (), h)
  | some directory =>
    match h.disk.makeDirectories h.working directory with
    | (.ok (), disk) => (.ok (), { h with disk := disk })
    | (.error error, disk) =>
      (.error ["failed to create output directory: " ++ directory.text, error.text],
        { h with disk := disk })

/-- Builds a song, after the directory of the output path has been made. -/
def build (song : Song) (output : Path) (s : Build.Settings) (h : Host) : Result × Host :=
  match makeOutputDirectory output h with
  | (.error chain, h) => (⟨[], .failed chain⟩, h)
  | (.ok (), h) =>
    match (Build.make song output s).run h with
    | (.ok built, h) => (⟨builtSpans built, .exit 0⟩, h)
    | (.error failure, h) => (failureResult output failure, h)

/-- Compiles the song in a file: the status is zero if the build ends well, with or without an
assembler, and one if the song breaks a rule or the assembler reports an error. -/
def compile (input output : Path) (s : Build.Settings) (h : Host) : Result × Host :=
  let heading := headed (.bold .cyan) "Compiling:" input.text
  match readSong h input with
  | .error chain => (⟨heading, .failed chain⟩, h)
  | .ok found =>
    let h := h.note .debug (found.line input)
    match found with
    | .valid song =>
      let (result, h) := build song output s h
      (⟨heading ++ result.output, result.verdict⟩, h)
    | .invalid rejection =>
      (⟨heading ++ violationSpans rejection ++ rejectedSpans "Song is invalid, nothing written",
        .exit 1⟩, h)

/-! ### Command lines -/

/-- What a run prints and its status. -/
structure Printed where
  status : UInt8
  output : List Span
  errors : List Span
  deriving DecidableEq, Repr

/-- The name and the version of the program. -/
def versionText : String := "sidsong 0.1.0\n"

/-- How the program is called. -/
def usageText : String :=
  "Usage: sidsong [OPTIONS] <INPUT> [OUTPUT]\n"

/-- What the program does and how it is called. -/
def helpText : String :=
  "sidsong - song document to SID chip compiler\n\n" ++ usageText
    ++ "\nArguments:\n"
    ++ "  <INPUT>   Path to the song document (JSON)\n"
    ++ "  [OUTPUT]  Path of the standalone assembly output; `<base>_sid.asm`, `<base>_sid.prg` and "
    ++ "`<base>.sid` are written next to it\n"
    ++ "\nOptions:\n"
    ++ "      --assembler <ASSEMBLER>        Path to the ACME assembler (default: "
    ++ "$SIDSONG_ASSEMBLER, then PATH)\n"
    ++ "      --timeout-secs <TIMEOUT_SECS>  Assembler timeout in seconds [default: 60]\n"
    ++ "      --check                        Only validate the song document, write nothing\n"
    ++ "  -v, --verbose...                   Increase log verbosity (-v info, -vv debug); RUST_LOG "
    ++ "overrides\n"
    ++ "  -h, --help                         Print help\n"
    ++ "  -V, --version                      Print version\n"

/-- What a finished command prints: a failure is told on the error output and has status one. -/
def Result.printed (r : Result) : Printed :=
  match r.verdict with
  | .exit status => ⟨status, r.output, []⟩
  | .failed chain =>
    ⟨1, r.output, [.styled (.coloured .red) "error", .plain (": " ++ chainText chain ++ "\n")]⟩

/-- Does what the options ask for. Checking goes before compiling. -/
def perform (o : Options) (h : Host) : Result × Host :=
  if o.checkOnly then check o.input h
  else
    match o.output? with
    | some output => compile o.input output o.settings h
    | none => (⟨[], .failed ["missing output path"]⟩, h)

/-- Runs a command line. -/
def run (arguments : List String) (h : Host) : Printed × Host :=
  match parseArguments arguments with
  | none => (⟨2, [], [.plain usageText]⟩, h)
  | some .help => (⟨0, [.plain helpText], []⟩, h)
  | some .version => (⟨0, [.plain versionText], []⟩, h)
  | some (.run options) =>
    let (result, h) := perform options h
    (result.printed, h)

end SidTune.Command
