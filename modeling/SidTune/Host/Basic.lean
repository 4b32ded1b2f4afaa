import SidTune.Host.Disk

/-!
# Hosts

A host is what a command finds around it: the disk, the working directory, an environment variable
that may name an assembler, the directories that are searched for programs, the programs that
executable files hold, and the log. Commands are functions on hosts.

## Main definitions

* `SidTune.Host.Record`: a line of the log.
* `SidTune.Host.Program`, `SidTune.Host.Outcome`: programs and what becomes of a run.
* `SidTune.Host`: hosts, with `Host.search?` and `Host.run`.
-/

namespace SidTune

namespace Host

/-! ### The log -/

/-- How much a line of the log matters. -/
inductive Level where
  | debug
  | info
  | warn
  deriving DecidableEq, Repr

/-- The name of a level. -/
def Level.name : Level → String
  | debug => "debug"
  | info => "info"
  | warn => "warn"

/-- A line of the log. -/
structure Record where
  level : Level
  message : String
  deriving DecidableEq, Repr

/-! ### Programs -/

/-- How a program is called. -/
structure Call where
  /-- Where the program's file is. -/
  program : Location
  working : Location
  arguments : List String
  deriving DecidableEq, Repr

/-- How a run of a program ends within the time that it is given. -/
inductive Ending where
  | exited (status : UInt8)
  | killed
  | stillRunning
  deriving DecidableEq, Repr

/-- What becomes of a run: how it ends, what it leaves on the disk, and what it writes to its error
output. -/
structure Outcome where
  ending : Ending
  disk : Disk
  errors : Bytes

/-- A program, as what it does when it is called. -/
abbrev Program := Call → Disk → Outcome

end Host

/-- What a command finds around it. -/
structure Host where
  disk : Disk
  working : Location
  /-- The value of the variable that may name an assembler. -/
  assemblerVariable : Option String
  /-- The directories that are searched for programs; an empty path is the working directory. -/
  searchPath : List Path
  /-- The program that the contents of an executable file are. -/
  load : Bytes → Option Host.Program
  log : List Host.Record

namespace Host

/-- The host with one more line in the log. -/
def note (h : Host) (level : Level) (message : String) : Host :=
  { h with log := h.log ++ [⟨level, message⟩] }

/-! ### Finding programs -/

/-- Whether there is an executable file at a path. -/
def isExecutable (h : Host) (p : Path) : Bool :=
  match h.disk.find? h.working p with
  | .ok (.file _ executable) => executable
  | _ => false

/-- The first executable file of the given name in the directories that are searched. -/
def search? (h : Host) (name : String) : Option Path :=
  (h.searchPath.map fun directory => directory.child name).find? h.isExecutable

/-! ### Running programs -/

/-- The executable file at a path: its location and contents. -/
def executableAt (h : Host) (p : Path) : Except OsError (Location × Bytes) := do
  let t ← h.disk.target h.working p
  match ← h.disk.find? h.working p with
  | .directory => .error .permissionDenied
  | .file contents executable =>
    if executable then .ok (t.place, contents) else .error .permissionDenied

/-- The executable file of the given name in one of the directories. A directory that does not have
it is passed over, and so is one that has it but does not permit running it. If none has it, a
refused permission is told, otherwise the error at the last directory; `told` is what would be told
so far. -/
def executableIn (h : Host) (name : String) (told : OsError) :
    List Path → Except OsError (Location × Bytes)
  | [] => .error told
  | directory :: rest =>
    match h.executableAt (directory.child name) with
    | .error error =>
      if error ∈ [.notFound, .notADirectory, .permissionDenied] then
        executableIn h name (if told = .permissionDenied then told else error) rest
      else .error error
    | found => found

/-- The executable file that a path names: a path without a slash is looked up in the directories
that are searched. -/
def resolve (h : Host) (p : Path) : Except OsError (Location × Bytes) :=
  if p.text.toList.contains '/' then h.executableAt p
  else h.executableIn p.text .notFound h.searchPath

/-- The most bytes of an argument. -/
def argumentLimit : Nat := 131071

/-- Runs the program that a path names. -/
def run (h : Host) (p : Path) (arguments : List String) : Except OsError Outcome :=
  if (p.text :: arguments).any Path.hasZero then .error .zeroInCall
  else do
    let (place, contents) ← h.resolve p
    if arguments.any fun argument => argumentLimit < argument.utf8ByteSize then
      throw .argumentTooLong
    match h.load contents with
    | none => throw .invalidExecutable
    | some program => return program ⟨place, h.working, arguments⟩ h.disk

end Host

end SidTune
