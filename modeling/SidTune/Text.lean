import SidTune.Basic

/-!
# Texts from outside

Text fields of foreign files need not hold valid UTF-8. They are read with one replacement
character for each maximal ill-formed part: a lead byte together with as many of the following
bytes as could have continued it. Messages of external programs are trimmed of white space in the
sense of the character property `White_Space`, which has twenty-five members.

## Main definitions

* `SidTune.Utf8.Lead`: what a lead byte announces, with `Lead.ofByte?`.
* `SidTune.Utf8.continuation`: how far the following bytes keep that announcement.
* `SidTune.Utf8.decodeLossy`: the characters of a byte string.
* `SidTune.Text.isBlank`, `SidTune.Text.trim`: white space, and a text without it at its ends.
-/

namespace SidTune.Utf8

/-! ### Lossy reading of UTF-8 -/

/-- The character that stands for an ill-formed part, U+FFFD. -/
def replacement : Char := '\ufffd'

/-- What a lead byte announces: the bits it carries, the range of the byte after it, and how many
more continuation bytes follow that one. -/
structure Lead where
  payload : Nat
  low : UInt8
  high : UInt8
  more : Nat

/-- Reads a lead byte of a sequence of two to four bytes. The ranges of the second byte leave out
overlong forms, surrogates and values above U+10FFFF. -/
def Lead.ofByte? (b : UInt8) : Option Lead :=
  if 0xC2 ≤ b ∧ b ≤ 0xDF then some ⟨b.toNat - 0xC0, 0x80, 0xBF, 0⟩
  else if b = 0xE0 then some ⟨0, 0xA0, 0xBF, 1⟩
  else if b = 0xED then some ⟨0xD, 0x80, 0x9F, 1⟩
  else if 0xE1 ≤ b ∧ b ≤ 0xEF then some ⟨b.toNat - 0xE0, 0x80, 0xBF, 1⟩
  else if b = 0xF0 then some ⟨0, 0x90, 0xBF, 2⟩
  else if 0xF1 ≤ b ∧ b ≤ 0xF3 then some ⟨b.toNat - 0xF0, 0x80, 0xBF, 2⟩
  else if b = 0xF4 then some ⟨4, 0x80, 0x8F, 2⟩
  else none

/-- Follows `more` continuation bytes onto the bits `payload`: how many were there, and the code
point if all were. -/
def tail (payload : Nat) : (more : Nat) → Bytes → Nat × Option Nat
  | 0, _ => (0, some payload)
  | _ + 1, [] => (0, none)
  | more + 1, b :: rest =>
    if 0x80 ≤ b ∧ b ≤ 0xBF then
      let (used, code) := tail (payload * 64 + (b.toNat - 0x80)) more rest
      (used + 1, code)
    else (0, none)

/-- Follows the bytes announced by a lead byte: how many were there, and the code point if all
were. -/
def continuation (lead : Lead) : Bytes → Nat × Option Nat
  | [] => (0, none)
  | b :: rest =>
    if lead.low ≤ b ∧ b ≤ lead.high then
      let (used, code) := tail (lead.payload * 64 + (b.toNat - 0x80)) lead.more rest
      (used + 1, code)
    else (0, none)

/-- The first character of `b :: rest`, and how many bytes of `rest` belong to it. -/
def first (b : UInt8) (rest : Bytes) : Char × Nat :=
  if b < 0x80 then (Char.ofNat b.toNat, 0)
  else
    match Lead.ofByte? b with
    | none => (replacement, 0)
    | some lead =>
      match continuation lead rest with
      | (used, some code) => (Char.ofNat code, used)
      | (used, none) => (replacement, used)

/-- The characters of a byte string, with `replacement` for each maximal ill-formed part. -/
def decodeLossy : Bytes → List Char
  | [] => []
  | b :: rest => (first b rest).1 :: decodeLossy (rest.drop (first b rest).2)
termination_by bytes => bytes.length
decreasing_by simp only [List.length_drop, List.length_cons]; omega

/-- The text of a byte string, with `replacement` for each maximal ill-formed part. -/
def textLossy (bytes : Bytes) : String :=
  String.ofList (decodeLossy bytes)

@[simp] theorem decodeLossy_nil : decodeLossy [] = [] := by
  rw [decodeLossy]

theorem decodeLossy_cons_ascii {b : UInt8} (rest : Bytes) (h : b < 0x80) :
    decodeLossy (b :: rest) = Char.ofNat b.toNat :: decodeLossy rest := by
  rw [decodeLossy]
  simp [first, h]

end SidTune.Utf8

namespace SidTune.Text

/-! ### White space -/

/-- The characters with the property `White_Space`. -/
def isBlank (c : Char) : Bool :=
  let n := c.toNat
  (0x9 ≤ n && n ≤ 0xD) || n == 0x20 || n == 0x85 || n == 0xA0 || n == 0x1680
    || (0x2000 ≤ n && n ≤ 0x200A) || n == 0x2028 || n == 0x2029 || n == 0x202F
    || n == 0x205F || n == 0x3000

/-- A text without the blanks at its two ends. -/
def trim (text : String) : String :=
  String.ofList (((text.toList.dropWhile isBlank).reverse.dropWhile isBlank).reverse)

end SidTune.Text
