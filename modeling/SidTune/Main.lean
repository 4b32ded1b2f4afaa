import SidTune.Command.Run

/-!
# The program

The command line is run on a picture of the real host: before the run, what is found at the paths
that it may use is taken up into a disk; after the run, what has changed on that disk is carried
out. This program does not launch others, so no file counts as executable.

## Main definitions

* `SidTune.Main.observe`: takes up what is found on the way to a path.
* `SidTune.Main.carryOut`: carries out what has changed.
* `main`: the program.
-/

namespace SidTune.Main

/-! ### Taking up -/

/-- The text of a location. -/
def placeText (place : Location) : String :=
  "/" ++ String.intercalate "/" place

/-- Takes up what is found at a location. -/
def look (d : Disk) (place : Location) : IO Disk := do
  let real := (← IO.currentDir) / placeText place
  if ← real.isDir then return d.put place .directory
  if ← real.pathExists then
    return d.put place (.file (← IO.FS.readBinFile real).data.toList false)
  return d

/-- Takes up what is found on the way to a path. -/
def observe (working : Location) (d : Disk) (p : Path) : IO Disk := do
  let (first, others) := Path.slices p.text.toList
  let mut disk := d
  let mut place := if p.isRooted then [] else working
  for piece in first :: others do
    unless Path.isIdle piece do
      place := if piece = ['.', '.'] then place.dropLast else place ++ [String.ofList piece]
      disk ← look disk place
  return disk

/-- The paths that a run may use. -/
def usedPaths (arguments : List String) (chosen? : Option String) : List Path :=
  match Command.parseArguments arguments with
  | some (.run o) =>
    o.input :: (o.output?.map fun p => (Build.Artifacts.ofOutput p).paths).getD []
      ++ o.assembler?.toList ++ (chosen?.map Path.mk).toList
  | _ => []

/-- The host of a run. -/
def takeUp (arguments : List String) : IO Host := do
  let here : Path := ⟨(← IO.currentDir).toString⟩
  let chosen? ← IO.getEnv Build.assemblerVariable
  let searched := ((← IO.getEnv "PATH").map (·.splitOn ":")).getD []
  let working := here.components.filterMap fun
    | .normal name => some (String.ofList name)
    | _ => none
  let disk ← (here :: usedPaths arguments chosen?).foldlM (observe working) {}
  return {
    disk := disk
    working := working
    assemblerVariable := chosen?
    searchPath := searched.map Path.mk
    load := fun _ => none
    log := [] }

/-! ### Carrying out -/

/-- Carries out what has changed at a location. -/
def carryOutAt (old new : Disk) (place : Location) : IO Unit := do
  let real := (← IO.currentDir) / placeText place
  match old.node? place, new.node? place with
  | none, some .directory => IO.FS.createDirAll real
  | some (.file ..), none => IO.FS.removeFile real
  | some (.file before _), some (.file after _) =>
    if before ≠ after then IO.FS.writeBinFile real ⟨after.toArray⟩
  | none, some (.file after _) => IO.FS.writeBinFile real ⟨after.toArray⟩
  | _, _ => return

/-- Carries out what has changed, from the root downwards. -/
def carryOut (old new : Disk) : IO Unit := do
  let places := (old.entries ++ new.entries).map Prod.fst
  for place in places.mergeSort fun a b => decide (a.length ≤ b.length) do
    carryOutAt old new place

/-! ### The run -/

/-- The least level of the log that is shown. -/
def shownFrom (arguments : List String) : Host.Level → Bool :=
  match Command.parseArguments arguments with
  | some (.run { verbosity := 0, .. }) => fun level => level = .warn
  | some (.run { verbosity := 1, .. }) => fun level => level ≠ .debug
  | _ => fun _ => true

/-- Runs a command line on the real host and gives its status. -/
def runReal (arguments : List String) : IO UInt32 := do
  let started ← IO.monoMsNow
  let host ← takeUp arguments
  let (printed, after) := Command.run arguments host
  carryOut host.disk after.disk
  let colours := Command.coloursOn (← IO.getEnv "CLICOLOR") (← IO.getEnv "NO_COLOR")
    (← IO.getEnv "CLICOLOR_FORCE") (← (← IO.getStdout).isTty)
  let elapsed := ((← IO.monoMsNow) - started).repr
  for record in after.log do
    if shownFrom arguments record.level then
      IO.eprintln ("[" ++ record.level.name ++ "] " ++ record.message)
  IO.print (Command.render colours elapsed printed.output)
  IO.eprint (Command.render colours elapsed printed.errors)
  return printed.status.toUInt32

end SidTune.Main

/-- The program. -/
def main (arguments : List String) : IO UInt32 :=
  SidTune.Main.runReal arguments
