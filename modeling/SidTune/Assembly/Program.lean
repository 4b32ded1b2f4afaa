import SidTune.Basic

/-!
# Assembly programs

A program for the 6502 is a list of items, each of them one or more lines of source text. Labels are
placed by the sizes of the items before them. A numeric address in the zero page makes an
instruction of two bytes; labels are always placed above the zero page and make three.

A program is written for the assembler line by line. Labels and origins stand at the start of a
line, instructions and data are indented, and data is written sixteen bytes to a line. A numeric
address is written with two digits exactly when it is in the zero page.

## Main definitions

* `SidTune.Assembly.Mnemonic`, `SidTune.Assembly.Operand`, `SidTune.Assembly.Item`: what a program
  is made of.
* `SidTune.Assembly.Mnemonic.width`, `SidTune.Assembly.Item.size`: how many bytes it takes.
* `SidTune.Assembly.Program`: programs, with `Program.totalSize` and `Program.resolve?`.
* `SidTune.Assembly.Operand.text?`, `SidTune.Assembly.Item.lines`: the text of operands and items.
* `SidTune.Assembly.Program.lines`, `SidTune.Assembly.Program.render`: the text of a program.

## Main results

* `SidTune.Assembly.Program.lines_append`: the lines of a program are those of its parts.
-/

namespace SidTune.Assembly

/-! ### Instructions -/

/-- The instructions that the player uses. -/
inductive Mnemonic where
  | adc | beq | bne | bpl | clc | cli | cmp | cpx | dec | dex | inc | inx | jmp | jsr | lda | ldx
  | ldy | ora | pha | pla | rti | rts | sei | sta | stx | tax | tay | txa | tya
  deriving DecidableEq, Repr

namespace Mnemonic

/-- The instructions in alphabetical order. -/
def all : List Mnemonic :=
  [adc, beq, bne, bpl, clc, cli, cmp, cpx, dec, dex, inc, inx, jmp, jsr, lda, ldx, ldy, ora, pha,
    pla, rti, rts, sei, sta, stx, tax, tay, txa, tya]

/-- The name of an instruction. -/
def name : Mnemonic → String
  | adc => "adc"
  | beq => "beq"
  | bne => "bne"
  | bpl => "bpl"
  | clc => "clc"
  | cli => "cli"
  | cmp => "cmp"
  | cpx => "cpx"
  | dec => "dec"
  | dex => "dex"
  | inc => "inc"
  | inx => "inx"
  | jmp => "jmp"
  | jsr => "jsr"
  | lda => "lda"
  | ldx => "ldx"
  | ldy => "ldy"
  | ora => "ora"
  | pha => "pha"
  | pla => "pla"
  | rti => "rti"
  | rts => "rts"
  | sei => "sei"
  | sta => "sta"
  | stx => "stx"
  | tax => "tax"
  | tay => "tay"
  | txa => "txa"
  | tya => "tya"

/-- Branches take the distance to their target in one byte. -/
def isRelative : Mnemonic → Bool
  | beq | bne | bpl => true
  | _ => false

end Mnemonic

/-- What an instruction works on. -/
inductive Operand where
  | implied
  | immediate (value : UInt8)
  /-- The low byte of the address of a label. -/
  | lowOf (name : String)
  /-- The high byte of the address of a label. -/
  | highOf (name : String)
  | address (addr : UInt16)
  | addressX (addr : UInt16)
  /-- The address of a label, or the target of a branch. -/
  | label (name : String)
  | labelX (name : String)
  | labelY (name : String)
  deriving DecidableEq, Repr

/-- Whether an address is in the zero page, where one byte tells it. -/
def inZeroPage (addr : UInt16) : Bool :=
  addr < 0x100

/-- How many bytes an instruction takes. -/
def Mnemonic.width (m : Mnemonic) : Operand → Nat
  | .implied => 1
  | .immediate _ | .lowOf _ | .highOf _ => 2
  | .address addr | .addressX addr => if inZeroPage addr then 2 else 3
  | .label _ => if m.isRelative then 2 else 3
  | .labelX _ | .labelY _ => 3

/-! ### Items -/

/-- One item of a program. -/
inductive Item where
  /-- What follows is placed from an address on. -/
  | origin (addr : UInt16)
  | label (name : String)
  | code (m : Mnemonic) (operand : Operand)
  | data (bytes : Bytes)
  | comment (text : String)
  | blank
  deriving DecidableEq, Repr

/-- How many bytes an item takes, as a 16-bit count. -/
def Item.size : Item → Nat
  | code m operand => m.width operand
  | data bytes => bytes.length % 0x10000
  | origin _ | label _ | comment _ | blank => 0

/-! ### Programs -/

/-- A program. -/
abbrev Program := List Item

/-- A labelled table of bytes. -/
def table (name : String) (bytes : Bytes) : Program :=
  [.label name, .data bytes]

namespace Program

/-- How many bytes the items of a program take together. -/
def totalSize : Program → Nat
  | [] => 0
  | item :: rest => item.size + totalSize rest

/-- The address after a program that is placed from `pc` on. -/
def endAddress (pc : UInt16) : Program → UInt16
  | [] => pc
  | .origin addr :: rest => endAddress addr rest
  | item :: rest => endAddress (pc + UInt16.ofNat item.size) rest

/-- The labels of a program that is placed from `pc` on, in the order in which they stand. -/
def labels (pc : UInt16) : Program → List (String × UInt16)
  | [] => []
  | .origin addr :: rest => labels addr rest
  | .label name :: rest => (name, pc) :: labels pc rest
  | item :: rest => labels (pc + UInt16.ofNat item.size) rest

/-- The address of a label; the last of labels of one name counts. -/
def resolve? (p : Program) (name : String) : Option UInt16 :=
  (p.labels 0).reverse.lookup name

/-- All labels with their addresses in the order of their names. -/
def symbols (p : Program) : List (String × UInt16) :=
  byName (p.labels 0)

/-- The sizes of two programs add up. -/
@[simp] theorem totalSize_append (p q : Program) :
    (p ++ q : Program).totalSize = p.totalSize + q.totalSize := by
  induction p with
  | nil => simp [totalSize]
  | cons item rest ih => simp [totalSize, ih, Nat.add_assoc]

/-- The labels of the second of two programs are placed after the first. -/
theorem labels_append (pc : UInt16) (p q : Program) :
    (p ++ q : Program).labels pc = p.labels pc ++ q.labels (p.endAddress pc) := by
  induction p generalizing pc with
  | nil => rfl
  | cons item rest ih =>
    cases item <;>
      simp [labels, endAddress, Item.size, ih]

end Program

/-! ### The text of operands -/

/-- The text of a numeric address. -/
def addressChars (addr : UInt16) : List Char :=
  '$' :: if inZeroPage addr then hexByte addr.toUInt8 else hexWord addr

/-- The text of a byte. -/
def byteChars (b : UInt8) : List Char :=
  '$' :: hexByte b

/-- The text of an operand, if it has one. -/
def Operand.text? : Operand → Option (List Char)
  | implied => none
  | immediate value => some ('#' :: byteChars value)
  | lowOf name => some ('#' :: '<' :: name.toList)
  | highOf name => some ('#' :: '>' :: name.toList)
  | address addr => some (addressChars addr)
  | addressX addr => some (addressChars addr ++ [',', 'x'])
  | label name => some name.toList
  | labelX name => some (name.toList ++ [',', 'x'])
  | labelY name => some (name.toList ++ [',', 'y'])

/-! ### The text of items -/

/-- The blanks before an instruction. -/
def margin : List Char :=
  List.replicate 8 ' '

/-- How many bytes stand on a line. -/
def rowLength : Nat := 16

/-- Cuts bytes into lines. -/
def rows (bytes : Bytes) : List Bytes :=
  match bytes with
  | [] => []
  | b :: rest => (b :: rest.take (rowLength - 1)) :: rows (rest.drop (rowLength - 1))
termination_by bytes.length
decreasing_by simp only [List.length_drop, List.length_cons]; omega

/-- The text of bytes on one line. -/
def rowChars (row : Bytes) : List Char :=
  List.intercalate [',', ' '] (row.map byteChars)

/-- The lines of an item. -/
def Item.lines : Item → List (List Char)
  | origin addr => ['*' :: ' ' :: '=' :: ' ' :: '$' :: hexWord addr]
  | label name => [name.toList]
  | code m operand =>
    match operand.text? with
    | none => [margin ++ m.name.toList]
    | some text => [margin ++ m.name.toList ++ ' ' :: text]
  | data bytes => (rows bytes).map fun row => margin ++ "!byte ".toList ++ rowChars row
  | comment text => [';' :: ' ' :: text.toList]
  | blank => [[]]

/-! ### The text of programs -/

namespace Program

/-- The lines of a program. -/
def lines (p : Program) : List (List Char) :=
  p.flatMap Item.lines

/-- The characters of a program's text: every line is ended. -/
def chars (p : Program) : List Char :=
  p.lines.flatMap fun line => line ++ ['\n']

/-- The text of a program. -/
def render (p : Program) : String :=
  String.ofList p.chars

/-- The lines of two programs follow one another. -/
@[simp] theorem lines_append (p q : Program) : (p ++ q : Program).lines = p.lines ++ q.lines :=
  List.flatMap_append

@[simp] theorem chars_append (p q : Program) : (p ++ q : Program).chars = p.chars ++ q.chars := by
  simp [chars]

end Program

end SidTune.Assembly
