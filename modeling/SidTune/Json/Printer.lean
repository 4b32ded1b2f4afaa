import SidTune.Basic
import SidTune.Json.Basic

/-!
# Compact JSON text

The compact text of a value has no blanks. Strings escape the quote, the backslash and the control
characters, by their short names where they have one. A binary64 number is written with the fewest
digits that read back: positionally while its leading digit stands between the fifth place after
the point and the sixteenth before it, otherwise with a signed exponent.

The decimal written for a binary floating-point number is the one with the fewest digits that
reads back as the same number, and of those the one nearest to it. The numbers that read back as
`m * 2 ^ q` form an interval, whose ends belong to it exactly when `m` is even; all comparisons
with it are made on natural numbers.

## Main definitions

* `SidTune.Decimal`: a number `digits * 10 ^ exponent`.
* `SidTune.Decimal.Binary`: the parts of a positive binary64 number, with `Binary.ofBits`.
* `SidTune.Decimal.Scaled`: a number and its interval over a common denominator.
* `SidTune.Decimal.shortest`: the shortest decimal that reads back.
* `SidTune.Json.escape`: the written form of a character inside a string.
* `SidTune.Json.binaryChars`: the text of a binary64 number.
* `SidTune.Json.chars`, `SidTune.Json.compact`: the text of a value.
-/

namespace SidTune

/-- The number `digits * 10 ^ exponent`. -/
structure Decimal where
  digits : Nat
  exponent : Int
  deriving DecidableEq, Repr

namespace Decimal

/-! ### Binary numbers and their intervals -/

/-- The number `significand * 2 ^ exponent`; below a power of two the gap to the next smaller
number is half as wide as the gap above. -/
structure Binary where
  significand : Nat
  exponent : Int
  narrowBelow : Bool

/-- The magnitude of the finite binary64 number with the given bits. -/
def Binary.ofBits (bits : UInt64) : Binary :=
  let fraction := (bits &&& 0xFFFFFFFFFFFFF).toNat
  match ((bits >>> 52) &&& 0x7FF).toNat with
  | 0 => ⟨fraction, -1074, false⟩
  | e + 1 => ⟨0x10000000000000 + fraction, (e : Int) - 1074, fraction == 0 && e != 0⟩

/-- A number `value / unit` with the ends `low / unit` and `high / unit` of its interval. -/
structure Scaled where
  value : Nat
  low : Nat
  high : Nat
  unit : Nat
  closed : Bool

/-- Brings a number and the ends of its interval to a common denominator. -/
def Binary.scaled (x : Binary) : Scaled :=
  let factor := Nat.pow 2 (x.exponent - 2).toNat
  { value := 4 * x.significand * factor
    low := (4 * x.significand - if x.narrowBelow then 1 else 2) * factor
    high := (4 * x.significand + 2) * factor
    unit := Nat.pow 2 (2 - x.exponent).toNat
    closed := x.significand % 2 == 0 }

/-- Whether `digits * grid` lies in the interval, all multiplied by `factor * unit`. -/
def Scaled.contains (x : Scaled) (factor grid digits : Nat) : Bool :=
  let point := digits * (grid * x.unit)
  (x.low * factor < point || x.closed && x.low * factor == point)
    && (point < x.high * factor || x.closed && point == x.high * factor)

/-! ### The search -/

/-- The candidate on the grid of multiples of `10 ^ exponent`: of the value's two neighbours there
the nearer that lies in the interval, the even one if both are as near. -/
def Scaled.onGrid? (x : Scaled) (exponent : Int) : Option Decimal :=
  let factor := Nat.pow 10 (-exponent).toNat
  let grid := Nat.pow 10 exponent.toNat
  let below := x.value * factor / (grid * x.unit)
  let twice := 2 * (x.value * factor)
  let middle := (2 * below + 1) * (grid * x.unit)
  let nearer := if twice < middle || twice == middle && below % 2 == 0 then below else below + 1
  let other := if nearer = below then below + 1 else below
  if x.contains factor grid nearer then some ⟨nearer, exponent⟩
  else if x.contains factor grid other then some ⟨other, exponent⟩
  else none

/-- The exponent of the leading digit of a number of at least one. -/
def leading (n : Nat) : Nat :=
  if n < 10 then 0 else leading (n / 10) + 1
termination_by n
decreasing_by omega

/-- The exponent of the leading digit: by how many places the point of `value / unit` moves to
leave one digit before it. The search upwards from `places` ends, for a positive value, within as
many steps as `value / unit` has zeros after its point. -/
def Scaled.leadingBelowOne (x : Scaled) (places : Nat) : (fuel : Nat) → Int
  | 0 => -(places : Int)
  | fuel + 1 =>
    if x.unit ≤ x.value * Nat.pow 10 places then -(places : Int)
    else x.leadingBelowOne (places + 1) fuel

/-- The exponent of the leading digit of a positive number. -/
def Scaled.leadingExponent (x : Scaled) : Int :=
  if x.unit ≤ x.value then leading (x.value / x.unit) else x.leadingBelowOne 1 400

/-- Moves trailing zeros of the digits into the exponent. -/
def strip (d : Decimal) : Decimal :=
  if h : d.digits ≠ 0 ∧ d.digits % 10 = 0 then strip ⟨d.digits / 10, d.exponent + 1⟩ else d
termination_by d.digits
decreasing_by omega

/-- The shortest decimal that reads back as a positive binary64 number. Seventeen digits always
suffice. -/
def shortest (x : Binary) : Decimal :=
  let scaled := x.scaled
  let top := scaled.leadingExponent
  let found := (List.range 17).findSome? fun n : Nat => scaled.onGrid? (top - n)
  strip (found.getD ⟨scaled.value, 0⟩)

end Decimal

end SidTune

namespace SidTune.Json

/-! ### Strings -/

/-- The written form of a character inside a string. -/
def escape (c : Char) : List Char :=
  if c = '"' then ['\\', '"']
  else if c = '\\' then ['\\', '\\']
  else if c.toNat < 0x20 then
    match c.toNat with
    | 0x08 => ['\\', 'b']
    | 0x09 => ['\\', 't']
    | 0x0A => ['\\', 'n']
    | 0x0C => ['\\', 'f']
    | 0x0D => ['\\', 'r']
    | n => ['\\', 'u', '0', '0', hexDigit (n / 16), hexDigit n]
  else [c]

/-- A string in quotes. -/
def stringChars (s : List Char) : List Char :=
  '"' :: (s.flatMap escape ++ ['"'])

/-! ### Numbers -/

/-- The largest exponent of a leading digit written positionally. -/
def positionalMost : Int := 15

/-- The least exponent of a leading digit written positionally. -/
def positionalLeast : Int := -5

/-- The text of a positive decimal. -/
def decimalChars (d : Decimal) : List Char :=
  let digits := Nat.toDigits 10 d.digits
  let top : Int := d.exponent + digits.length - 1
  if top < positionalLeast ∨ positionalMost < top then
    let fraction := if digits.length ≤ 1 then [] else '.' :: digits.drop 1
    let sign := if top < 0 then '-' else '+'
    digits.take 1 ++ fraction ++ 'e' :: sign :: Nat.toDigits 10 top.natAbs
  else if top < 0 then
    '0' :: '.' :: (List.replicate (-top - 1).toNat '0' ++ digits)
  else if 0 ≤ d.exponent then
    digits ++ List.replicate d.exponent.toNat '0' ++ ['.', '0']
  else
    digits.take (top.toNat + 1) ++ '.' :: digits.drop (top.toNat + 1)

/-- The text of a finite binary64 number with the given bits. -/
def binaryChars (bits : UInt64) : List Char :=
  let magnitude := bits &&& 0x7FFFFFFFFFFFFFFF
  let sign := if bits = magnitude then [] else ['-']
  sign ++
    if magnitude = 0 then ['0', '.', '0']
    else decimalChars (Decimal.shortest (Decimal.Binary.ofBits magnitude))

/-- The digits of an integer, after a minus sign if it is negative. -/
def integerChars (value : Int) : List Char :=
  if value < 0 then '-' :: Nat.toDigits 10 value.natAbs else Nat.toDigits 10 value.natAbs

/-- The text of a number. -/
def Number.chars : Number → List Char
  | .integer value => integerChars value
  | .binary bits => binaryChars bits

/-! ### Values -/

mutual

/-- The compact text of a value. -/
def chars : Json → List Char
  | .null => ['n', 'u', 'l', 'l']
  | .bool true => ['t', 'r', 'u', 'e']
  | .bool false => ['f', 'a', 'l', 's', 'e']
  | .number n => n.chars
  | .string s => stringChars s.toList
  | .array items => '[' :: itemChars items
  | .object members => '{' :: memberChars members

/-- The rest of an array after its opening bracket. -/
def itemChars : List Json → List Char
  | [] => [']']
  | value :: rest => value.chars ++ itemTail rest

/-- The rest of an array after an item. -/
def itemTail : List Json → List Char
  | [] => [']']
  | value :: rest => ',' :: (value.chars ++ itemTail rest)

/-- The rest of an object after its opening brace. -/
def memberChars : List (String × Json) → List Char
  | [] => ['}']
  | (name, value) :: rest => stringChars name.toList ++ ':' :: (value.chars ++ memberTail rest)

/-- The rest of an object after a member. -/
def memberTail : List (String × Json) → List Char
  | [] => ['}']
  | (name, value) :: rest =>
    ',' :: (stringChars name.toList ++ ':' :: (value.chars ++ memberTail rest))

end

/-- The compact text of a value. -/
def compact (value : Json) : String :=
  String.ofList value.chars

end SidTune.Json
