import Mathlib.Data.List.Basic
import SidTune.Assembly.Program
import SidTune.Proofs.Assembly.Encoding

/-!
# Reading source text back

A line of source text starts with a blank exactly if it holds an instruction or data, and with a
letter or an underscore exactly if it is a label. So every line of a program whose labels are
identifiers is read back as what it was written for; only data that fills several lines is read as
several items, and data without bytes is not read at all.

## Main definitions

* `SidTune.Assembly.isIdentifier`, `SidTune.Assembly.isLine`, `SidTune.Assembly.Item.isLegible`:
  what can be read back.
* `SidTune.Assembly.Operand.ofText?`, `SidTune.Assembly.Item.ofLine?`: operands and lines are read.
* `SidTune.Assembly.Item.linewise`: an item, cut where its lines are.

## Main results

* `SidTune.Assembly.Operand.ofText?_of_text?`: the text of an operand is read back.
* `SidTune.Assembly.Item.map_ofLine?_lines`: the lines of an item are read back.
-/

namespace SidTune.Assembly

/-! ### What can be read back -/

/-- Whether a character is a letter or an underscore. All characters beyond ASCII count as
letters. -/
def isLetter (c : Char) : Bool :=
  c.isAlpha || c == '_' || 0x80 ≤ c.toNat

/-- Whether a text is a letter or an underscore that is followed by letters, digits and
underscores. -/
def isIdentifier (name : String) : Bool :=
  match name.toList with
  | [] => false
  | c :: rest => isLetter c && rest.all fun d => isLetter d || d.isDigit

/-- Whether a text is a single line. -/
def isLine (text : String) : Bool :=
  !text.toList.contains '\n'

/-- Whether the labels of an item are identifiers, and its remark is a single line. -/
def Item.isLegible : Item → Bool
  | label name => isIdentifier name
  | code _ operand => operand.names.all isIdentifier
  | comment text => isLine text
  | origin _ | data _ | blank => true

/-- An identifier starts with a letter, and letters and digits follow. -/
theorem exists_of_isIdentifier {name : String} (h : isIdentifier name) :
    ∃ c rest, name.toList = c :: rest ∧ isLetter c ∧ ∀ d ∈ c :: rest, isLetter d ∨ d.isDigit := by
  rw [isIdentifier] at h
  split at h
  · cases h
  · next c rest htext =>
    simp only [Bool.and_eq_true, List.all_eq_true, Bool.or_eq_true] at h
    refine ⟨c, rest, htext, h.1, ?_⟩
    simpa [h.1] using h.2

theorem notMem_of_isIdentifier {name : String} {c : Char} (hletter : isLetter c = false)
    (hdigit : c.isDigit = false) (h : isIdentifier name) : c ∉ name.toList := by
  obtain ⟨d, rest, htext, -, hall⟩ := exists_of_isIdentifier h
  intro hmem
  rw [htext] at hmem
  have := hall c hmem
  simp_all

/-! ### Numbers -/

/-- The value of hexadecimal digits. -/
def hexNumber? (digits : List Char) : Option Nat :=
  digits.foldlM (fun n c => (hexValue? c).map (16 * n + ·)) 0

@[simp] theorem hexNumber?_hexByte (b : UInt8) : hexNumber? (hexByte b) = some b.toNat := by
  have hvalue : 16 * (b.toNat / 16 % 16) + b.toNat % 16 = b.toNat := by
    have := b.toNat_lt
    omega
  simpa [hexNumber?, hexByte, hexValue?_hexDigit] using hvalue

@[simp] theorem hexNumber?_hexWord (w : UInt16) : hexNumber? (hexWord w) = some w.toNat := by
  have hvalue : 16 * (16 * (16 * (w.toNat / 4096 % 16) + w.toNat / 256 % 16) + w.toNat / 16 % 16) +
      w.toNat % 16 = w.toNat := by
    have := w.toNat_lt
    omega
  simpa [hexNumber?, hexWord, hexValue?_hexDigit] using hvalue

/-- The digits of a numeric address. -/
def addressDigits (addr : UInt16) : List Char :=
  if inZeroPage addr then hexByte addr.toUInt8 else hexWord addr

theorem addressChars_eq (addr : UInt16) : addressChars addr = '$' :: addressDigits addr := rfl

@[simp] theorem hexNumber?_addressDigits (addr : UInt16) :
    hexNumber? (addressDigits addr) = some addr.toNat := by
  rw [addressDigits]
  split
  · next hzeroPage =>
    have hsmall : addr.toNat < 256 := by simpa [inZeroPage, UInt16.lt_iff_toNat_lt] using hzeroPage
    rw [hexNumber?_hexByte, UInt16.toNat_toUInt8, Nat.mod_eq_of_lt hsmall]
  · exact hexNumber?_hexWord addr

section Digits

variable {c : Char} (h : hexValue? c = none)

include h

theorem hexDigit_ne (n : Nat) : c ≠ hexDigit n := by
  rintro rfl
  rw [hexValue?_hexDigit] at h
  cases h

theorem notMem_hexByte (b : UInt8) : c ∉ hexByte b := by
  simp [hexByte, hexDigit_ne h]

theorem notMem_hexWord (w : UInt16) : c ∉ hexWord w := by
  simp [hexWord, hexDigit_ne h]

theorem notMem_addressDigits (addr : UInt16) : c ∉ addressDigits addr := by
  rw [addressDigits]
  split
  · exact notMem_hexByte h _
  · exact notMem_hexWord h _

end Digits

/-! ### Bytes -/

/-- The bytes that are written on a line, set off by commas. -/
def readRow? : List Char → Option Bytes
  | '$' :: hi :: lo :: rest =>
    match (hexNumber? [hi, lo]).map UInt8.ofNat, rest with
    | some b, [] => some [b]
    | some b, ',' :: ' ' :: more => (readRow? more).map (b :: ·)
    | _, _ => none
  | _ => none

theorem rowChars_cons (b c : UInt8) (row : Bytes) :
    rowChars (b :: c :: row) = '$' :: hexDigit (b.toNat / 16) :: hexDigit b.toNat ::
      ',' :: ' ' :: rowChars (c :: row) := by
  simp [rowChars, List.intercalate, byteChars, hexByte]

private theorem readRow?_rowChars (b : UInt8) (row : Bytes) :
    readRow? (rowChars (b :: row)) = some (b :: row) := by
  have hbyte (c : UInt8) :
      (hexNumber? [hexDigit (c.toNat / 16), hexDigit c.toNat]).map UInt8.ofNat =
      some c := by
    rw [← hexByte, hexNumber?_hexByte, Option.map_some, UInt8.ofNat_toNat]
  induction row generalizing b with
  | nil => simp [rowChars, byteChars, hexByte, readRow?, hbyte]
  | cons c row ih => simp [rowChars_cons, readRow?, hbyte, ih]

/-! ### Operands -/

/-- A numeric address with its index, if it has one. -/
def Operand.addressWith? (addr : UInt16) : List Char → Option Operand
  | [] => some (address addr)
  | [',', 'x'] => some (addressX addr)
  | _ => none

/-- The address of a label with its index, if it has one. -/
def Operand.labelWith? (name : String) : List Char → Option Operand
  | [] => some (label name)
  | [',', 'x'] => some (labelX name)
  | [',', 'y'] => some (labelY name)
  | _ => none

/-- The operand that a text is written for. -/
def Operand.ofText? : List Char → Option Operand
  | '#' :: '<' :: name => some (lowOf (String.ofList name))
  | '#' :: '>' :: name => some (highOf (String.ofList name))
  | '#' :: '$' :: digits => (hexNumber? digits).map fun n => immediate (UInt8.ofNat n)
  | '$' :: text => (hexNumber? (text.takeWhile (· ≠ ','))).bind fun n =>
      addressWith? (UInt16.ofNat n) (text.dropWhile (· ≠ ','))
  | text => labelWith? (String.ofList (text.takeWhile (· ≠ ','))) (text.dropWhile (· ≠ ','))

section Operands

variable {c : Char} {name : String} {text index : List Char}

theorem isLetter_ne (h : isLetter c) :
    c ≠ '#' ∧ c ≠ '$' ∧ c ≠ ',' ∧ c ≠ ';' ∧ c ≠ '*' ∧ c ≠ ' ' ∧ c ≠ '\n' := by
  refine ⟨?_, ?_, ?_, ?_, ?_, ?_, ?_⟩ <;> rintro rfl <;> revert h <;> decide

/-- What stands before a comma is told from the comma and what follows it. -/
theorem cut_comma (hplain : ',' ∉ text) (hstarts : ∀ d ∈ index.head?, d = ',') :
    (text ++ index).takeWhile (· ≠ ',') = text ∧
      (text ++ index).dropWhile (· ≠ ',') = index := by
  have hall : ∀ d ∈ text, decide (d ≠ ',') = true := by
    intro d hmem
    simpa using fun hsame : d = ',' => hplain (hsame ▸ hmem)
  rw [List.takeWhile_append_of_pos hall, List.dropWhile_append_of_pos hall]
  cases index <;> simp_all

/-- A numeric address is read back with its index. -/
theorem Operand.ofText?_addressChars (addr : UInt16) (index : List Char)
    (hstarts : ∀ d ∈ index.head?, d = ',') :
    ofText? (addressChars addr ++ index) = addressWith? addr index := by
  obtain ⟨hbefore, hafter⟩ := cut_comma (notMem_addressDigits (by decide) addr) hstarts
  rw [addressChars_eq, List.cons_append, ofText?, hbefore, hafter, hexNumber?_addressDigits,
    Option.bind_some, UInt16.ofNat_toNat]

/-- The address of a label is read back with its index. -/
theorem Operand.ofText?_name (hidentifier : isIdentifier name) (index : List Char)
    (hstarts : ∀ d ∈ index.head?, d = ',') :
    ofText? (name.toList ++ index) = labelWith? name index := by
  obtain ⟨hbefore, hafter⟩ := cut_comma
    (notMem_of_isIdentifier (by decide) (by decide) hidentifier) hstarts
  obtain ⟨c, rest, hchars, hletter, -⟩ := exists_of_isIdentifier hidentifier
  obtain ⟨hsharp, hdollar, -⟩ := isLetter_ne hletter
  have hlast : ofText? (name.toList ++ index) =
      labelWith? (String.ofList ((name.toList ++ index).takeWhile (· ≠ ',')))
        ((name.toList ++ index).dropWhile (· ≠ ',')) := by
    rw [hchars, List.cons_append, ofText?] <;> simp_all
  rw [hlast, hbefore, hafter, String.ofList_toList]

/-- The text of an operand is read back. -/
theorem Operand.ofText?_of_text? {operand : Operand} (hnames : operand.names.all isIdentifier)
    (h : operand.text? = some text) : ofText? text = some operand := by
  cases operand with
  | implied => cases h
  | immediate value =>
    cases h
    simp [ofText?, byteChars]
  | lowOf name | highOf name =>
    cases h
    simp [ofText?]
  | address addr =>
    cases h
    simpa [addressWith?] using ofText?_addressChars addr [] (by simp)
  | addressX addr =>
    cases h
    exact ofText?_addressChars addr _ (by simp)
  | label name =>
    cases h
    simpa [labelWith?] using
      ofText?_name (by simpa [Operand.names] using hnames) [] (by simp)
  | labelX name | labelY name =>
    cases h
    exact ofText?_name (by simpa [Operand.names] using hnames) _ (by simp)

end Operands

/-! ### Lines -/

/-- The instruction of the given name. -/
def Mnemonic.ofName? (text : List Char) : Option Mnemonic :=
  Mnemonic.all.find? fun m => m.name.toList == text

/-- An instruction with its operand, if it has one. -/
def Item.codeWith? (m : Mnemonic) : List Char → Option Item
  | [] => some (code m .implied)
  | ' ' :: operand => (Operand.ofText? operand).map (code m)
  | _ => none

/-- What a line holds after the margin. -/
def Item.ofIndented? : List Char → Option Item
  | '!' :: text => ((text.dropPrefix? "byte ".toList).bind readRow?).map data
  | text => (Mnemonic.ofName? (text.take 3)).bind fun m => codeWith? m (text.drop 3)

/-- The item that a line is written for. -/
def Item.ofLine? : List Char → Option Item
  | [] => some blank
  | ';' :: ' ' :: text => some (comment (String.ofList text))
  | '*' :: ' ' :: '=' :: ' ' :: '$' :: digits =>
    (hexNumber? digits).map fun n => origin (UInt16.ofNat n)
  | ' ' :: text => ((' ' :: text).dropPrefix? margin).bind ofIndented?
  | name => some (label (String.ofList name))

/-- An item, cut where its lines are. -/
def Item.linewise : Item → Program
  | data bytes => (rows bytes).map data
  | item => [item]

section Lines

variable {name : String} {text : List Char}

theorem Mnemonic.length_name (m : Mnemonic) : m.name.toList.length = 3 := by
  cases m <;> rfl

theorem Mnemonic.ofName?_name (m : Mnemonic) : Mnemonic.ofName? m.name.toList = some m := by
  cases m <;> rfl

/-- No instruction is taken for data. -/
theorem Mnemonic.name_ne (m : Mnemonic) (text rest : List Char) :
    m.name.toList ++ text ≠ '!' :: rest := by
  cases m <;> simp [Mnemonic.name]

private theorem Item.ofLine?_margin (text : List Char) :
    ofLine? (margin ++ text) = ofIndented? text := by
  have hdropped : (margin ++ text).dropPrefix? margin = some text :=
    List.dropPrefix?_append_of_beq text (beq_self_eq_true margin)
  exact congrArg (Option.bind · ofIndented?) hdropped

theorem Item.ofIndented?_name (m : Mnemonic) (text : List Char) :
    ofIndented? (m.name.toList ++ text) = codeWith? m text := by
  rw [ofIndented?, List.take_left' m.length_name, List.drop_left' m.length_name, m.ofName?_name,
    Option.bind_some]
  exact fun rest => m.name_ne text rest

theorem Item.ofIndented?_rowChars (b : UInt8) (row : Bytes) :
    ofIndented? ("!byte ".toList ++ rowChars (b :: row)) = some (data (b :: row)) := by
  have hdropped : ("byte ".toList ++ rowChars (b :: row)).dropPrefix? "byte ".toList =
      some (rowChars (b :: row)) :=
    List.dropPrefix?_append_of_beq _ (beq_self_eq_true _)
  have hread := readRow?_rowChars b row
  calc ofIndented? ("!byte ".toList ++ rowChars (b :: row))
      = ((("byte ".toList ++ rowChars (b :: row)).dropPrefix? "byte ".toList).bind
          readRow?).map data := rfl
    _ = some (data (b :: row)) := by rw [hdropped, Option.bind_some, hread, Option.map_some]

/-- A label is read back. -/
theorem Item.ofLine?_name (hidentifier : isIdentifier name) :
    ofLine? name.toList = some (label name) := by
  obtain ⟨c, rest, hchars, hletter, -⟩ := exists_of_isIdentifier hidentifier
  obtain ⟨-, -, -, hsemicolon, hstar, hspace, -⟩ := isLetter_ne hletter
  have hlast : ofLine? name.toList = some (label (String.ofList name.toList)) := by
    rw [hchars, ofLine?] <;> simp_all
  rw [hlast, String.ofList_toList]

private theorem exists_of_mem_rows {bytes row : Bytes} (h : row ∈ rows bytes) :
    ∃ b rest, row = b :: rest := by
  fun_induction rows bytes with
  | case1 => cases h
  | case2 b rest ih =>
    rcases List.mem_cons.1 h with rfl | h
    · exact ⟨b, _, rfl⟩
    · exact ih h

/-- The lines of an item are read back. -/
theorem Item.map_ofLine?_lines {item : Item} (hlegible : item.isLegible) :
    item.lines.map ofLine? = item.linewise.map some := by
  cases item with
  | origin addr => simp [lines, linewise, ofLine?]
  | label name => simp [lines, linewise, ofLine?_name hlegible]
  | code m operand =>
    simp only [lines, linewise]
    split
    · next hnone =>
      have himplied : operand = .implied := by cases operand <;> simp_all [Operand.text?]
      have hread := ofIndented?_name m []
      rw [List.append_nil] at hread
      simp [ofLine?_margin, hread, codeWith?, himplied]
    · next text h =>
      simp [ofLine?_margin, ofIndented?_name, codeWith?, Operand.ofText?_of_text? hlegible h]
  | data bytes =>
    simp only [lines, linewise, List.map_map]
    refine List.map_congr_left fun row hmem => ?_
    obtain ⟨b, rest, rfl⟩ := exists_of_mem_rows hmem
    rw [Function.comp_apply, Function.comp_apply, List.append_assoc, ofLine?_margin,
      ofIndented?_rowChars]
  | comment text => simp [lines, linewise, ofLine?]
  | blank => rfl

end Lines

end SidTune.Assembly
