import SidTune.Basic
import SidTune.Host.Path

/-!
# The file system

A disk maps locations to files and directories. A path is looked up piece by piece from the root or
from the working directory, and every piece but the last has to name a directory. Names and paths
are limited in length. Besides what the rules of the tree forbid, a disk may refuse operations for
reasons of its own, such as permissions. An operation that fails changes nothing.

## Main definitions

* `SidTune.OsError`: what the operating system says when it refuses, with `OsError.text`.
* `SidTune.Location`, `SidTune.Node`, `SidTune.Disk`: locations, what is there, and disks.
* `SidTune.Disk.target`: where a path leads, with `Disk.atTarget?`.
* `SidTune.Disk.read`, `SidTune.Disk.write`, `SidTune.Disk.remove`, `SidTune.Disk.makeDirectory`:
  the operations.
* `SidTune.Disk.makeDirectories`: makes a directory and those above it.
-/

namespace SidTune

/-! ### Errors -/

/-- An error of the operating system, or of what is handed to it or read as text. -/
inductive OsError where
  | notFound
  | argumentTooLong
  | invalidExecutable
  | permissionDenied
  | alreadyExists
  | notADirectory
  | isADirectory
  | nameTooLong
  /-- A path contains a zero character, which no file name can. -/
  | zeroInPath
  /-- A program or an argument contains a zero character. -/
  | zeroInCall
  /-- A file that is read as text is not UTF-8. -/
  | notText
  /-- Any other error, by its message. -/
  | other (message : String)
  deriving DecidableEq, Repr

/-- The message of an error. -/
def OsError.text : OsError → String
  | notFound => "No such file or directory (os error 2)"
  | argumentTooLong => "Argument list too long (os error 7)"
  | invalidExecutable => "Exec format error (os error 8)"
  | permissionDenied => "Permission denied (os error 13)"
  | alreadyExists => "File exists (os error 17)"
  | notADirectory => "Not a directory (os error 20)"
  | isADirectory => "Is a directory (os error 21)"
  | nameTooLong => "File name too long (os error 36)"
  | zeroInPath => "file name contained an unexpected NUL byte"
  | zeroInCall => "nul byte found in provided data"
  | notText => "stream did not contain valid UTF-8"
  | other message => message

/-- The names that lead from the root to a place on the disk. -/
abbrev Location := List String

/-- What is at a location. -/
inductive Node where
  | directory
  | file (contents : Bytes) (executable : Bool)
  deriving DecidableEq, Repr

/-- The ways to use a location. -/
inductive Access where
  | read
  | write
  | remove
  | makeDirectory
  deriving DecidableEq, Repr

/-- A disk: what is at each location, and which operations it refuses although the tree allows
them. -/
structure Disk where
  entries : List (Location × Node) := []
  refusal : Access → Location → Option OsError := fun _ _ => none

namespace Disk

/-! ### The tree -/

/-- What is at a location. The root is always a directory. -/
def node? (d : Disk) (place : Location) : Option Node :=
  if place = [] then some .directory else d.entries.lookup place

/-- The disk without what is at a location. -/
def erase (d : Disk) (place : Location) : Disk :=
  { d with entries := d.entries.filter fun entry => entry.1 ≠ place }

/-- The disk with something else at a location. -/
def put (d : Disk) (place : Location) (node : Node) : Disk :=
  { d with entries := (place, node) :: (d.erase place).entries }

/-- Leaving out the entries of one location changes nothing elsewhere. -/
theorem lookup_filter_ne (entries : List (Location × Node)) (place other : Location) :
    (entries.filter fun entry => entry.1 ≠ place).lookup other
      = if other = place then none else entries.lookup other := by
  induction entries with
  | nil => simp
  | cons entry rest ih =>
    obtain ⟨here, node⟩ := entry
    by_cases hk : other = here
    · subst hk
      by_cases h : other = place
      · simpa [h] using ih
      · simp [h]
    · have hapart : (other == here) = false := beq_eq_false_iff_ne.2 hk
      by_cases h : here = place
      · rw [List.filter_cons_of_neg (by simpa using h), ih, List.lookup_cons, hapart]
      · rw [List.filter_cons_of_pos (by simpa using h), List.lookup_cons, List.lookup_cons, hapart]
        exact ih

/-- What is at a location after something has been removed. -/
theorem node?_erase (d : Disk) {place other : Location} (h : other ≠ []) :
    (d.erase place).node? other = if other = place then none else d.node? other := by
  simp only [node?, erase, h, if_false]
  exact lookup_filter_ne ..

/-- What is at a location after something has been put somewhere. -/
theorem node?_put (d : Disk) (node : Node) {place other : Location} (h : other ≠ []) :
    (d.put place node).node? other = if other = place then some node else d.node? other := by
  simp only [node?, put, erase, h, if_false, List.lookup_cons]
  by_cases hk : other = place
  · simp [hk]
  · simp only [beq_eq_false_iff_ne.2 hk, if_neg hk]
    rw [lookup_filter_ne, if_neg hk]

/-! ### Looking paths up -/

/-- Where a path leads: a directory, and the name in it unless the path ends with a point or two;
a slash at the end asks for a directory. -/
structure Target where
  directory : Location
  name? : Option String
  slash : Bool
  deriving DecidableEq, Repr

/-- The location of a target. -/
def Target.place (t : Target) : Location :=
  t.directory ++ t.name?.toList

/-- The most bytes of a name. -/
def nameLimit : Nat := 255

/-- The most bytes of a path. -/
def pathLimit : Nat := 4095

/-- What is under a name in a directory, or an error if the name is too long to be there. -/
def entry? (d : Disk) (directory : Location) (name : String) : Except OsError (Option Node) :=
  if name.utf8ByteSize ≤ nameLimit then .ok (d.node? (directory ++ [name]))
  else .error .nameTooLong

/-- What is at a target. -/
def atTarget? (d : Disk) (t : Target) : Except OsError (Option Node) :=
  match t.name? with
  | none => .ok (d.node? t.directory)
  | some name => d.entry? t.directory name

/-- Follows pieces of a path, all of which have to lead to directories. -/
def walk (d : Disk) (place : Location) : List (List Char) → Except OsError Location
  | [] => .ok place
  | piece :: rest =>
    if Path.isIdle piece then walk d place rest
    else if piece = ['.', '.'] then walk d place.dropLast rest
    else
      let name := String.ofList piece
      match d.entry? place name with
      | .ok (some .directory) => walk d (place ++ [name]) rest
      | .ok (some (.file ..)) => .error .notADirectory
      | .ok none => .error .notFound
      | .error error => .error error

/-- Where a path leads from a working directory. The empty path leads nowhere. -/
def target (d : Disk) (working : Location) (p : Path) : Except OsError Target :=
  if Path.hasZero p.text then .error .zeroInPath
  else if p.text = "" then .error .notFound
  else if pathLimit < p.text.utf8ByteSize then .error .nameTooLong
  else
    let (first, others) := Path.slices p.text.toList
    let pieces := first :: others
    let start := if p.isRooted then [] else working
    let slash := pieces.getLast? == some []
    let significant := (pieces.reverse.dropWhile (· = [])).reverse
    match significant.getLast? with
    | none => .ok ⟨[], none, slash⟩
    | some last =>
      if last = ['.'] ∨ last = ['.', '.'] then
        (d.walk start significant).map fun place => ⟨place, none, slash⟩
      else
        (d.walk start significant.dropLast).map fun place =>
          ⟨place, some (String.ofList last), slash⟩

/-- What a path leads to, if it is there. -/
def find? (d : Disk) (working : Location) (p : Path) : Except OsError Node := do
  let t ← d.target working p
  match ← d.atTarget? t with
  | none => .error .notFound
  | some .directory => .ok .directory
  | some node => if t.slash then .error .notADirectory else .ok node

/-- Whether there is anything at a path. -/
def exists? (d : Disk) (working : Location) (p : Path) : Bool :=
  (d.find? working p).toBool

/-- Whether there is a directory at a path. -/
def isDirectory (d : Disk) (working : Location) (p : Path) : Bool :=
  match d.find? working p with
  | .ok .directory => true
  | _ => false

/-! ### Operations -/

/-- Goes on unless the disk refuses. -/
def permit (d : Disk) (access : Access) (place : Location) : Except OsError Unit :=
  match d.refusal access place with
  | none => .ok ()
  | some error => .error error

/-- The contents of the file at a path. -/
def read (d : Disk) (working : Location) (p : Path) : Except OsError Bytes := do
  let t ← d.target working p
  match ← d.find? working p with
  | .directory => .error .isADirectory
  | .file contents _ => do
    d.permit .read t.place
    return contents

/-- The disk after a file has been written at a path: an existing file is replaced and stays
executable if it was. -/
def write (d : Disk) (working : Location) (p : Path) (contents : Bytes) : Except OsError Disk := do
  let t ← d.target working p
  if t.name? = none ∨ t.slash then .error .isADirectory
  else
    match ← d.atTarget? t with
    | some .directory => .error .isADirectory
    | some (.file _ executable) => do
      d.permit .write t.place
      return d.put t.place (.file contents executable)
    | none => do
      d.permit .write t.place
      return d.put t.place (.file contents false)

/-- The disk after the file at a path has been removed. -/
def remove (d : Disk) (working : Location) (p : Path) : Except OsError Disk := do
  let t ← d.target working p
  if t.name? = none then .error .isADirectory
  else
    match ← d.atTarget? t with
    | none => .error .notFound
    | some .directory => .error .isADirectory
    | some (.file ..) =>
      if t.slash then .error .notADirectory
      else do
        d.permit .remove t.place
        return d.erase t.place

/-- The disk after a directory has been made at a path. -/
def makeDirectory (d : Disk) (working : Location) (p : Path) : Except OsError Disk := do
  let t ← d.target working p
  if t.name? = none ∨ (← d.atTarget? t).isSome then .error .alreadyExists
  else do
    d.permit .makeDirectory t.place
    return d.put t.place .directory

/-- Makes a directory, which may be there already. -/
def makeIfMissing (d : Disk) (working : Location) (p : Path) : Except OsError Unit × Disk :=
  match d.makeDirectory working p with
  | .ok d => (.ok (), d)
  | .error error => (if d.isDirectory working p then .ok () else .error error, d)

/-- Makes a directory and those above it that are missing. Directories made before an error stay.
No path has more directories above it than its text has characters. -/
def makeAll (working : Location) : (fuel : Nat) → Path → Disk → Except OsError Unit × Disk
  | 0, _, d => (.error .notFound, d)
  | fuel + 1, p, d =>
    if p.text = "" then (.ok (), d)
    else
      match d.makeDirectory working p with
      | .ok d => (.ok (), d)
      | .error .notFound =>
        match p.parent? with
        | none => (.error (.other "failed to create whole tree"), d)
        | some above =>
          match makeAll working fuel above d with
          | (.error error, d) => (.error error, d)
          | (.ok (), d) => d.makeIfMissing working p
      | .error error => (if d.isDirectory working p then .ok () else .error error, d)

/-- Makes a directory and those above it that are missing. -/
def makeDirectories (d : Disk) (working : Location) (p : Path) : Except OsError Unit × Disk :=
  makeAll working (p.text.length + 1) p d

end Disk

end SidTune
