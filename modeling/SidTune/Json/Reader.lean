import SidTune.Basic
import SidTune.Json.Basic

/-!
# Reading JSON text

A text is read from the left. What reads a value takes the text that is left and gives the value and
the text after it. Nesting is limited, so that the depth of the recursion is.

A text that is not JSON has a first fault: a problem and the place where it was met. While reading,
a place is the number of bytes of the text that follow it; for the reader of a message it is a line
and a column, the column counting bytes.

An integer literal of at most 64 bits keeps its value. Any other literal is a binary64 number: the
digits that fit a 64-bit significand, multiplied or divided by a power of ten. Digits that no longer
fit are dropped; dropped digits before the point still count as places.

## Main definitions

* `SidTune.Json.Problem`: what can be wrong, with its wording.
* `SidTune.Json.Fault`: a problem at a place, with `Fault.here` and `Fault.past`.
* `SidTune.Json.Malformed`: a problem at a line and column.
* `SidTune.Json.absorb`: the digits that fit the significand.
* `SidTune.Json.scale?`: a significand times a power of ten.
* `SidTune.Json.readNumber`: reads a literal after its sign.
* `SidTune.Json.readString`: a string after its opening quote.
* `SidTune.Json.readItems`, `SidTune.Json.readMembers`: an array and an object after their opening
  brackets.
* `SidTune.Json.readValue`: a value.
* `SidTune.Json.parse`: the value of a text.
-/

namespace SidTune.Json

/-! ### Faults -/

/-- What can be wrong with a text. -/
inductive Problem where
  | endInValue
  | endInList
  | endInObject
  | endInString
  | expectedValue
  | expectedColon
  | expectedListEnd
  | expectedObjectEnd
  | expectedIdent
  | nameNotString
  | trailingComma
  | trailingCharacters
  | tooDeep
  | invalidNumber
  | numberOutOfRange
  | invalidEscape
  | controlCharacter
  | brokenPair
  | lonePart
  deriving DecidableEq, Repr

/-- The wording of a problem. -/
def Problem.text : Problem → String
  | .endInValue => "EOF while parsing a value"
  | .endInList => "EOF while parsing a list"
  | .endInObject => "EOF while parsing an object"
  | .endInString => "EOF while parsing a string"
  | .expectedValue => "expected value"
  | .expectedColon => "expected `:`"
  | .expectedListEnd => "expected `,` or `]`"
  | .expectedObjectEnd => "expected `,` or `\x7d`"
  | .expectedIdent => "expected ident"
  | .nameNotString => "key must be a string"
  | .trailingComma => "trailing comma"
  | .trailingCharacters => "trailing characters"
  | .tooDeep => "recursion limit exceeded"
  | .invalidNumber => "invalid number"
  | .numberOutOfRange => "number out of range"
  | .invalidEscape => "invalid escape"
  | .controlCharacter => "control character (\\u0000-\\u001F) found while parsing a string"
  | .brokenPair => "unexpected end of hex escape"
  | .lonePart => "lone leading surrogate in hex escape"

/-- The number of bytes of a piece of text. -/
def byteLength (cs : List Char) : Nat :=
  cs.foldr (fun c bytes => c.utf8Size + bytes) 0

/-- A problem, and how many bytes of the text follow the place where it was met. -/
structure Fault where
  problem : Problem
  left : Nat
  deriving DecidableEq, Repr

/-- A problem with the first byte of `rest`; the place is just after that byte. -/
def Fault.here (problem : Problem) (rest : List Char) : Fault :=
  ⟨problem, byteLength rest - 1⟩

/-- A problem met after everything before `rest` has been read. -/
def Fault.past (problem : Problem) (rest : List Char) : Fault :=
  ⟨problem, byteLength rest⟩

/-! ### Lines and columns -/

/-- A problem at a line, counted from one, and a column: the bytes since the last line break. -/
structure Malformed where
  problem : Problem
  line : Nat
  column : Nat
  deriving DecidableEq, Repr

/-- Moves a line and column over the first `count` bytes of a piece of text. -/
def advance (line column count : Nat) : List Char → Nat × Nat
  | [] => (line, column)
  | c :: rest =>
    if count = 0 then (line, column)
    else if c = '\n' then advance (line + 1) 0 (count - 1) rest
    else advance line (column + min count c.utf8Size) (count - c.utf8Size) rest

/-- The fault of a text, by line and column. -/
def Fault.locate (fault : Fault) (text : List Char) : Malformed :=
  let place := advance 1 0 (byteLength text - fault.left) text
  ⟨fault.problem, place.1, place.2⟩

/-- The message about a text that is not JSON. -/
def Malformed.text (m : Malformed) : String :=
  m.problem.text ++ " at line " ++ m.line.repr ++ " column " ++ m.column.repr

/-! ### Number literals -/

/-- What reading gives: a value and the text after it, or a fault. -/
abbrev Reading (α : Type) := Except Fault (α × List Char)

/-- The value of a decimal digit. -/
def digitValue (c : Char) : Nat :=
  c.toNat - '0'.toNat

/-- Appends decimal digits to a significand while it stays below `2 ^ 64`; the digits that are left
are the second component. -/
def absorb (significand : Nat) : List Char → Nat × List Char
  | [] => (significand, [])
  | c :: rest =>
    let next := significand * 10 + digitValue c
    if next < 0x10000000000000000 then absorb next rest else (significand, c :: rest)

/-! ### Scaling -/

/-- The binary64 number nearest to `10 ^ n`, for `n` up to `308`. -/
def powerOfTen (n : Nat) : Float :=
  Float.ofScientific 1 false n

/-- Divides by `10 ^ n`, in steps of at most `308` places. -/
def divideByPower (f : Float) (n : Nat) : Float :=
  if n ≤ 308 then f / powerOfTen n
  else if f == 0 then f
  else divideByPower (f / powerOfTen 308) (n - 308)
termination_by n
decreasing_by omega

/-- A significand times `10 ^ exponent`, if that is a finite number. -/
def scale? (significand : Nat) (exponent : Int) : Option Float :=
  let f := (UInt64.ofNat significand).toFloat
  if exponent < 0 then some (divideByPower f (-exponent).toNat)
  else if exponent ≤ 308 then
    let product := f * powerOfTen exponent.toNat
    if product.isInf then none else some product
  else if significand = 0 then some f
  else none

/-- A binary64 number with its sign. -/
def signed (negative : Bool) (f : Float) : Number :=
  .binary (if negative then -f else f).toBits

/-- The number of an integer literal. A negative zero, and a negative number below `-2 ^ 63`, are
binary64 numbers. -/
def ofInteger (negative : Bool) (significand : Nat) : Number :=
  if !negative then .integer significand
  else if 0 < significand ∧ significand ≤ 0x8000000000000000 then .integer (-significand)
  else signed true (UInt64.ofNat significand).toFloat

/-! ### Reading numbers -/

/-- The number of a literal that ends before `rest`. -/
def ofParts (negative : Bool) (significand : Nat) (exponent : Int) (rest : List Char) :
    Reading Number :=
  match scale? significand exponent with
  | some f => .ok (signed negative f, rest)
  | none => .error (.past .numberOutOfRange rest)

/-- The digits of an exponent: their value and the text after them, or no value and the text after
the digit that takes it to `2 ^ 31`. -/
def exponentDigits (value : Nat) : List Char → Option Nat × List Char
  | [] => (some value, [])
  | c :: rest =>
    if c.isDigit then
      let next := value * 10 + digitValue c
      if next < 0x80000000 then exponentDigits next rest else (none, rest)
    else (some value, c :: rest)

/-- Reads the digits of an exponent that is subtracted, or added, to the places counted so far. An
exponent that is too large makes the number zero if it is subtracted or the significand is zero. -/
def readExponent (negative : Bool) (significand : Nat) (places : Int) (down : Bool)
    (cs : List Char) : Reading Number :=
  match cs with
  | [] => .error (.past .endInValue [])
  | c :: _ =>
    if !c.isDigit then .error (.here .invalidNumber cs)
    else
      match exponentDigits 0 cs with
      | (some e, rest) =>
        ofParts negative significand (if down then places - e else places + e) rest
      | (none, rest) =>
        if significand ≠ 0 ∧ !down then .error (.past .numberOutOfRange rest)
        else .ok (signed negative 0, rest.dropWhile Char.isDigit)

/-- Reads what follows the digits of a number with `places` powers of ten: an exponent or
nothing. -/
def readScaled (negative : Bool) (significand : Nat) (places : Int) (cs : List Char) :
    Reading Number :=
  match cs with
  | [] => ofParts negative significand places []
  | c :: rest =>
    if c = 'e' ∨ c = 'E' then
      match rest with
      | '+' :: rest => readExponent negative significand places false rest
      | '-' :: rest => readExponent negative significand places true rest
      | rest => readExponent negative significand places false rest
    else ofParts negative significand places cs

/-- Reads the digits after the point. -/
def readFraction (negative : Bool) (significand : Nat) (places : Nat) (cs : List Char) :
    Reading Number :=
  let fraction := cs.takeWhile Char.isDigit
  let rest := cs.dropWhile Char.isDigit
  match fraction, rest with
  | [], [] => .error (.past .endInValue [])
  | [], rest => .error (.here .invalidNumber rest)
  | fraction, rest =>
    let (significand, ignored) := absorb significand fraction
    readScaled negative significand ((places : Int) + ignored.length - fraction.length) rest

/-- Reads what follows the digits `whole` before the point. -/
def readWhole (negative : Bool) (whole : List Char) (cs : List Char) : Reading Number :=
  let (significand, dropped) := absorb 0 whole
  match cs with
  | '.' :: rest => readFraction negative significand dropped.length rest
  | cs =>
    if dropped = [] ∧ cs.head? ≠ some 'e' ∧ cs.head? ≠ some 'E' then
      .ok (ofInteger negative significand, cs)
    else readScaled negative significand dropped.length cs

/-- Reads a number literal after its sign. Only a lone zero may stand first. -/
def readNumber (negative : Bool) (cs : List Char) : Reading Number :=
  match cs with
  | [] => .error (.past .endInValue [])
  | '0' :: rest =>
    if rest.head?.any Char.isDigit then .error (.here .invalidNumber rest)
    else readWhole negative ['0'] rest
  | c :: _ =>
    if c.isDigit then readWhole negative (cs.takeWhile Char.isDigit) (cs.dropWhile Char.isDigit)
    else .error (.here .invalidNumber cs)

/-! ### Blanks -/

/-- The characters that may stand between tokens. -/
def isBlank (c : Char) : Bool :=
  c = ' ' || c = '\t' || c = '\n' || c = '\r'

/-- A text without the blanks at its start. -/
def skipBlank (cs : List Char) : List Char :=
  cs.dropWhile isBlank

/-! ### Strings -/

/-- Reads four hexadecimal digits. The escape is read as a whole: with fewer than four bytes left
the text ends inside it, otherwise a fault is past its four bytes. -/
def readHex (cs : List Char) : Reading Nat :=
  match cs with
  | a :: b :: c :: d :: rest =>
    match hexValue? a, hexValue? b, hexValue? c, hexValue? d with
    | some a, some b, some c, some d => .ok (((a * 16 + b) * 16 + c) * 16 + d, rest)
    | _, _, _, _ => .error ⟨.invalidEscape, byteLength cs - 4⟩
  | cs =>
    if byteLength cs < 4 then .error (.past .endInString [])
    else .error ⟨.invalidEscape, byteLength cs - 4⟩

/-- Reads the second half of a surrogate pair, whose first half was `lead`. -/
def readPair (lead : Nat) (cs : List Char) : Reading Char :=
  match cs with
  | [] => .error (.past .endInString [])
  | '\\' :: [] => .error (.past .endInString [])
  | '\\' :: 'u' :: rest =>
    match readHex rest with
    | .error fault => .error fault
    | .ok (trail, rest) =>
      if 0xDC00 ≤ trail ∧ trail ≤ 0xDFFF then
        .ok (Char.ofNat ((lead - 0xD800) * 0x400 + (trail - 0xDC00) + 0x10000), rest)
      else .error (.past .lonePart rest)
  | '\\' :: rest => .error (.here .brokenPair rest)
  | rest => .error (.here .brokenPair rest)

/-- Reads the character of an escape after its backslash. -/
def readEscape (cs : List Char) : Reading Char :=
  match cs with
  | [] => .error (.past .endInString [])
  | '"' :: rest => .ok ('"', rest)
  | '\\' :: rest => .ok ('\\', rest)
  | '/' :: rest => .ok ('/', rest)
  | 'b' :: rest => .ok ('\x08', rest)
  | 'f' :: rest => .ok ('\x0c', rest)
  | 'n' :: rest => .ok ('\n', rest)
  | 'r' :: rest => .ok ('\r', rest)
  | 't' :: rest => .ok ('\t', rest)
  | 'u' :: rest =>
    match readHex rest with
    | .error fault => .error fault
    | .ok (n, rest) =>
      if 0xDC00 ≤ n ∧ n ≤ 0xDFFF then .error (.past .lonePart rest)
      else if 0xD800 ≤ n ∧ n ≤ 0xDBFF then readPair n rest
      else .ok (Char.ofNat n, rest)
  | rest => .error (.here .invalidEscape rest)

theorem length_lt_of_readHex {cs rest : List Char} {n : Nat} (h : readHex cs = .ok (n, rest)) :
    rest.length < cs.length := by
  unfold readHex at h
  split at h
  · split at h
    · simp only [Except.ok.injEq, Prod.mk.injEq] at h
      simp only [← h.2, List.length_cons]
      omega
    · cases h
  · split at h <;> cases h

private theorem length_lt_of_readPair {lead : Nat} {cs rest : List Char} {c : Char}
    (h : readPair lead cs = .ok (c, rest)) : rest.length < cs.length := by
  unfold readPair at h
  split at h
  case h_3 =>
    split at h
    · cases h
    · next hex =>
      split at h
      · simp only [Except.ok.injEq, Prod.mk.injEq] at h
        have := length_lt_of_readHex hex
        simp only [← h.2, List.length_cons]
        omega
      · cases h
  all_goals cases h

private theorem length_lt_of_readEscape {cs rest : List Char} {c : Char}
    (h : readEscape cs = .ok (c, rest)) : rest.length < cs.length := by
  unfold readEscape at h
  split at h
  case h_10 =>
    split at h
    · cases h
    · next hex =>
      have := length_lt_of_readHex hex
      split at h
      · cases h
      · split at h
        · have := length_lt_of_readPair h
          simp only [List.length_cons]
          omega
        · simp only [Except.ok.injEq, Prod.mk.injEq] at h
          simp only [← h.2, List.length_cons]
          omega
  all_goals cases h
  all_goals simp

/-- Reads a string after its opening quote; `seen` holds its characters so far, latest first. -/
def readString (seen : List Char) (cs : List Char) : Reading String :=
  match cs with
  | [] => .error (.past .endInString [])
  | '"' :: rest => .ok (String.ofList seen.reverse, rest)
  | '\\' :: rest =>
    match _escape : readEscape rest with
    | .error fault => .error fault
    | .ok (c, after) => readString (c :: seen) after
  | c :: rest =>
    if c.toNat < 0x20 then .error (.here .controlCharacter cs) else readString (c :: seen) rest
termination_by cs.length
decreasing_by
  · have := length_lt_of_readEscape _escape
    simp only [List.length_cons]
    omega
  · simp

/-! ### Values -/

/-- Reads the rest of a word that stands for `value`. -/
def readWord (value : Json) : (word cs : List Char) → Reading Json
  | [], cs => .ok (value, cs)
  | _ :: _, [] => .error (.past .endInValue [])
  | w :: word, c :: cs =>
    if c = w then readWord value word cs else .error (.here .expectedIdent (c :: cs))

/-- Reads the items of an array, from the start of an item to the closing bracket. `seen` holds the
items so far, latest first, and every item uses up at least one of the `fuel` characters. -/
def readItems (value : List Char → Reading Json) (seen : List Json) :
    (fuel : Nat) → List Char → Reading (List Json)
  | 0, _ => .error (.past .endInList [])
  | fuel + 1, cs =>
    match value cs with
    | .error fault => .error fault
    | .ok (item, rest) =>
      match skipBlank rest with
      | [] => .error (.past .endInList [])
      | ']' :: rest => .ok ((item :: seen).reverse, rest)
      | ',' :: rest =>
        match skipBlank rest with
        | ']' :: rest => .error (.here .trailingComma (']' :: rest))
        | rest => readItems value (item :: seen) fuel rest
      | rest => .error (.here .expectedListEnd rest)

/-- Reads a member: a name, a colon and a value. -/
def readMember (value : List Char → Reading Json) (cs : List Char) : Reading (String × Json) :=
  match cs with
  | [] => .error (.past .endInValue [])
  | '"' :: rest =>
    match readString [] rest with
    | .error fault => .error fault
    | .ok (name, rest) =>
      match skipBlank rest with
      | [] => .error (.past .endInObject [])
      | ':' :: rest =>
        match value rest with
        | .error fault => .error fault
        | .ok (item, rest) => .ok ((name, item), rest)
      | rest => .error (.here .expectedColon rest)
  | rest => .error (.here .nameNotString rest)

/-- Reads the members of an object, from the start of a member to the closing brace. `seen` holds
the members so far, latest first, and every member uses up at least one of the `fuel` characters. -/
def readMembers (value : List Char → Reading Json) (seen : List (String × Json)) :
    (fuel : Nat) → List Char → Reading (List (String × Json))
  | 0, _ => .error (.past .endInObject [])
  | fuel + 1, cs =>
    match readMember value cs with
    | .error fault => .error fault
    | .ok (item, rest) =>
      match skipBlank rest with
      | [] => .error (.past .endInObject [])
      | '}' :: rest => .ok ((item :: seen).reverse, rest)
      | ',' :: rest =>
        match skipBlank rest with
        | '}' :: rest => .error (.here .trailingComma ('}' :: rest))
        | rest => readMembers value (item :: seen) fuel rest
      | rest => .error (.here .expectedObjectEnd rest)

/-- Reads an array after its opening bracket; it has at most `fuel` items. -/
def readArray (value : List Char → Reading Json) (fuel : Nat) (cs : List Char) : Reading Json :=
  match skipBlank cs with
  | [] => .error (.past .endInList [])
  | ']' :: rest => .ok (.array [], rest)
  | rest =>
    match readItems value [] fuel rest with
    | .error fault => .error fault
    | .ok (items, rest) => .ok (.array items, rest)

/-- Reads an object after its opening brace; it has at most `fuel` members. -/
def readObject (value : List Char → Reading Json) (fuel : Nat) (cs : List Char) : Reading Json :=
  match skipBlank cs with
  | [] => .error (.past .endInObject [])
  | '}' :: rest => .ok (.object [], rest)
  | rest =>
    match readMembers value [] fuel rest with
    | .error fault => .error fault
    | .ok (members, rest) => .ok (ofMembers members, rest)

/-- Reads a number with its sign. -/
def readSigned (cs : List Char) : Reading Json :=
  let number := match cs with
    | '-' :: rest => readNumber true rest
    | cs => readNumber false cs
  match number with
  | .error fault => .error fault
  | .ok (n, rest) => .ok (.number n, rest)

/-- Reads a value, with room for `room` arrays and objects one inside the other, each of at most
`fuel` elements. -/
def readValue (fuel room : Nat) (cs : List Char) : Reading Json :=
  match skipBlank cs with
  | [] => .error (.past .endInValue [])
  | 'n' :: rest => readWord .null ['u', 'l', 'l'] rest
  | 't' :: rest => readWord (.bool true) ['r', 'u', 'e'] rest
  | 'f' :: rest => readWord (.bool false) ['a', 'l', 's', 'e'] rest
  | '"' :: rest =>
    match readString [] rest with
    | .error fault => .error fault
    | .ok (s, rest) => .ok (.string s, rest)
  | '[' :: rest =>
    match room with
    | 0 => .error (.here .tooDeep ('[' :: rest))
    | room + 1 => readArray (readValue fuel room) fuel rest
  | '{' :: rest =>
    match room with
    | 0 => .error (.here .tooDeep ('{' :: rest))
    | room + 1 => readObject (readValue fuel room) fuel rest
  | c :: rest =>
    if c = '-' ∨ c.isDigit then readSigned (c :: rest)
    else .error (.here .expectedValue (c :: rest))

/-! ### Texts -/

/-- How many arrays and objects may stand one inside the other. -/
def maxDepth : Nat := 127

/-- The value of a text that holds one value and blanks. No array or object of a text has more
elements than the text has characters. -/
def parse (text : String) : Except Malformed Json :=
  let cs := text.toList
  match readValue cs.length maxDepth cs with
  | .error fault => .error (fault.locate cs)
  | .ok (value, rest) =>
    match skipBlank rest with
    | [] => .ok value
    | rest => .error ((Fault.here .trailingCharacters rest).locate cs)

end SidTune.Json
