/-!
# Paths

A path is a text in which slashes set off pieces. Empty pieces and pieces of a single point say
nothing, except that a path may start at the root or at the current directory; what is left are the
components of the path. Two texts with the same components are the same path. The text is kept,
because messages show it and derived paths extend it.

## Main definitions

* `SidTune.Path`, `SidTune.Path.components`: paths and their components.
* `SidTune.Path.fileName?`, `SidTune.Path.parent?`: the last component and what is before it.
* `SidTune.Path.splitExtension`, `SidTune.Path.withoutExtension`: the extension of a file name.
-/

namespace SidTune

/-- A path, as it is written. -/
structure Path where
  text : String
  deriving DecidableEq, Repr, Inhabited

namespace Path

/-- Whether a text contains a zero character, which no file name can. -/
def hasZero (text : String) : Bool :=
  text.toList.contains '\x00'

/-! ### Pieces -/

/-- The pieces between slashes; there is at least one. -/
def slices : List Char → List Char × List (List Char)
  | [] => ([], [])
  | c :: rest =>
    let (first, others) := slices rest
    if c = '/' then ([], first :: others) else (c :: first, others)

/-- Puts pieces together with slashes. -/
def joined (first : List Char) (others : List (List Char)) : List Char :=
  first ++ others.flatMap fun piece => '/' :: piece

/-- Cutting a text into pieces loses nothing. -/
theorem joined_slices (text : List Char) : joined (slices text).1 (slices text).2 = text := by
  induction text with
  | nil => rfl
  | cons c rest ih =>
    simp only [slices]
    split
    · next h => simpa [joined, h] using ih
    · simpa [joined] using ih

/-- Whether a piece says nothing. -/
def isIdle (piece : List Char) : Bool :=
  piece = [] || piece = ['.']

/-- Drops the idle pieces at the end. -/
def dropIdle (pieces : List (List Char)) : List (List Char) :=
  (pieces.reverse.dropWhile isIdle).reverse

/-! ### Components -/

/-- A component of a path. -/
inductive Component where
  | root
  | current
  | parent
  | normal (name : List Char)
  deriving DecidableEq, Repr

/-- The component of a piece, if it is one. -/
def Component.ofPiece? (piece : List Char) : Option Component :=
  if isIdle piece then none
  else if piece = ['.', '.'] then some parent
  else some (normal piece)

/-- The component that a path starts with: the root if a slash is written first, the current
directory if a point is. -/
def start (first : List Char) (others : List (List Char)) : List Component :=
  if first = [] ∧ others ≠ [] then [.root]
  else if first = ['.'] then [.current]
  else (Component.ofPiece? first).toList

/-- The components of a path. -/
def components (p : Path) : List Component :=
  let (first, others) := slices p.text.toList
  start first others ++ others.filterMap Component.ofPiece?

/-- Whether two paths have the same components. -/
def same (p q : Path) : Bool :=
  p.components == q.components

/-- Whether a path starts at the root. -/
def isRooted (p : Path) : Bool :=
  p.components.head? == some .root

/-! ### File names -/

/-- The file name: the last component, if it is a name. -/
def fileName? (p : Path) : Option (List Char) :=
  match p.components.getLast? with
  | some (.normal name) => some name
  | _ => none

/-- Cuts a file name at its last point: the stem, and the extension if there is one. A point at the
start of a name does not set off an extension. -/
def splitExtension (name : List Char) : List Char × Option (List Char) :=
  let extension := (name.reverse.takeWhile (· ≠ '.')).reverse
  let stem := name.take (name.length - extension.length - 1)
  if extension.length = name.length ∨ stem = [] then (name, none) else (stem, some extension)

/-- The text up to the file name of a path that has one. -/
def beforeName (p : Path) : List Char :=
  let (first, others) := slices p.text.toList
  match (dropIdle others).dropLast, dropIdle others with
  | _, [] => []
  | others, _ => joined first others ++ ['/']

/-- The text of a path without the extension of its file name, and without what follows the name.
A path with no file name stays as it is. A name that ends the text and whose stem is a single point
keeps the point that set off its extension. -/
def withoutExtension (p : Path) : List Char :=
  match p.fileName? with
  | none => p.text.toList
  | some name =>
    match splitExtension name with
    | (['.'], some _) =>
      if p.beforeName ++ name = p.text.toList then p.beforeName ++ ['.', '.']
      else p.beforeName ++ ['.']
    | (stem, _) => p.beforeName ++ stem

/-- The path that continues the given text. -/
def ofChars (text : List Char) (suffix : String) : Path :=
  ⟨String.ofList (text ++ suffix.toList)⟩

/-! ### Parents -/

/-- The path before the last component, if there is one other than the root. -/
def parent? (p : Path) : Option Path :=
  let (first, others) := slices p.text.toList
  match dropIdle others, start first others with
  | [], [] => none
  | [], [.root] => none
  | [], _ => some ⟨""⟩
  | others, opening =>
    match dropIdle others.dropLast with
    | [] => some ⟨if opening = [.root] then "/" else String.ofList first⟩
    | others => some ⟨String.ofList (joined first others)⟩

/-- The path of a name inside a directory, which the empty text says is the working directory. -/
def child (directory : Path) (name : String) : Path :=
  if directory.text.toList.getLast?.all (· = '/') then ⟨directory.text ++ name⟩
  else ⟨directory.text ++ "/" ++ name⟩

end Path

end SidTune
