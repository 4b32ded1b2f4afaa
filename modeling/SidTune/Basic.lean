/-!
# Bytes, rounded quotients and entries by name

What all parts share. File contents, chip images and encoded text are lists of bytes, with words in
big-endian order and lower-case hexadecimal. Tick counts and mean cutoffs are quotients rounded to
the nearest whole number, a half upwards. The members of an object and the labels of a program are
entries with names: an entry may replace an earlier one of the same name, and what is shown is in
the order of the names.

## Main definitions

* `SidTune.Bytes`: a list of bytes, with `Bytes.ofText` and `Bytes.toText?` for UTF-8 text.
* `SidTune.Bytes.word`, `SidTune.Bytes.doubleWord`: big-endian words.
* `SidTune.hexByte`, `SidTune.hexWord`: the digits of a byte and of a 16-bit word.
* `SidTune.Bytes.toHex`: two digits a byte.
* `SidTune.roundedQuotient`: the rounded quotient.
* `SidTune.byName`: entries in the order of their names, of one name only the last.

## Main results

* `SidTune.wordOf_bytes`, `SidTune.doubleWordOf_bytes`: a word is read back from its bytes.
* `SidTune.word_wordOf`, `SidTune.doubleWord_doubleWordOf`: bytes are those of the word they make.
* `SidTune.hexValue?_hexDigit`: a hexadecimal digit is read back.
* `SidTune.roundedQuotient_le_iff`: a bound on a rounded quotient, without division.
* `SidTune.roundedQuotient_mono_left`, `SidTune.roundedQuotient_anti_right`: a rounded quotient
  grows with the dividend and shrinks with the divisor.
-/

namespace SidTune

/-- A byte string. -/
abbrev Bytes := List UInt8

/-! ### Text -/

/-- The UTF-8 bytes of a text. -/
def Bytes.ofText (text : String) : Bytes :=
  text.toUTF8.data.toList

/-- The text whose UTF-8 bytes are given, if there is one. -/
def Bytes.toText? (bytes : Bytes) : Option String :=
  String.fromUTF8? ⟨bytes.toArray⟩

/-! ### Words, most significant byte first -/

/-- The two bytes of a 16-bit word. -/
def Bytes.word (w : UInt16) : Bytes :=
  [(w >>> 8).toUInt8, w.toUInt8]

/-- The four bytes of a 32-bit word. -/
def Bytes.doubleWord (w : UInt32) : Bytes :=
  [(w >>> 24).toUInt8, (w >>> 16).toUInt8, (w >>> 8).toUInt8, w.toUInt8]

/-- The 16-bit word of two bytes. -/
def wordOf (hi lo : UInt8) : UInt16 :=
  hi.toUInt16 <<< 8 ||| lo.toUInt16

/-- The 32-bit word of four bytes. -/
def doubleWordOf (a b c d : UInt8) : UInt32 :=
  a.toUInt32 <<< 24 ||| b.toUInt32 <<< 16 ||| c.toUInt32 <<< 8 ||| d.toUInt32

theorem shiftLeft_or_byte (n : Nat) {byte : Nat} (h : byte < 256) (k : Nat) :
    n <<< (8 + k) ||| byte <<< k = (256 * n + byte) <<< k := by
  rw [Nat.shiftLeft_add, ← Nat.shiftLeft_or_distrib, ← Nat.shiftLeft_add_eq_or_of_lt h,
    Nat.shiftLeft_eq n 8, Nat.mul_comm]

theorem toNat_wordOf (hi lo : UInt8) : (wordOf hi lo).toNat = 256 * hi.toNat + lo.toNat := by
  have high := hi.toNat_lt
  have hjoined := shiftLeft_or_byte hi.toNat lo.toNat_lt 0
  simp only [wordOf, UInt16.toNat_or, UInt16.toNat_shiftLeft, UInt8.toNat_toUInt16]
  rw [Nat.mod_eq_of_lt (by
    simp only [Nat.shiftLeft_eq, UInt16.reduceToNat, Nat.reduceMod, Nat.reducePow]
    omega)]
  exact hjoined

/-- The bytes of a word make the word. -/
@[simp] theorem wordOf_bytes (w : UInt16) : wordOf (w >>> 8).toUInt8 w.toUInt8 = w := by
  apply UInt16.toNat_inj.1
  have := w.toNat_lt
  simp only [toNat_wordOf, UInt16.toNat_toUInt8, UInt16.toNat_shiftRight, UInt16.reduceToNat,
    Nat.reduceMod, Nat.shiftRight_eq_div_pow, Nat.reducePow]
  omega

theorem toNat_doubleWordOf (a b c d : UInt8) : (doubleWordOf a b c d).toNat =
    256 * (256 * (256 * a.toNat + b.toNat) + c.toNat) + d.toNat := by
  have hfirst := shiftLeft_or_byte a.toNat b.toNat_lt 16
  have hsecond := shiftLeft_or_byte (256 * a.toNat + b.toNat) c.toNat_lt 8
  have hthird := shiftLeft_or_byte (256 * (256 * a.toNat + b.toNat) + c.toNat) d.toNat_lt 0
  have hfits (byte : UInt8) {k : Nat} (h : k ≤ 24) :
      byte.toNat <<< k % 2 ^ 32 = byte.toNat <<< k := by
    refine Nat.mod_eq_of_lt ?_
    rw [Nat.shiftLeft_eq]
    calc byte.toNat * 2 ^ k < 2 ^ 8 * 2 ^ k :=
          Nat.mul_lt_mul_of_pos_right byte.toNat_lt (Nat.two_pow_pos k)
      _ = 2 ^ (8 + k) := (Nat.pow_add 2 8 k).symm
      _ ≤ 2 ^ 32 := Nat.pow_le_pow_right (by decide) (by omega)
  simp only [doubleWordOf, UInt32.toNat_or, UInt32.toNat_shiftLeft, UInt8.toNat_toUInt32]
  rw [hfits a (by decide), hfits b (by decide), hfits c (by decide)]
  calc a.toNat <<< 24 ||| b.toNat <<< 16 ||| c.toNat <<< 8 ||| d.toNat
      = (256 * a.toNat + b.toNat) <<< 16 ||| c.toNat <<< 8 ||| d.toNat := by rw [hfirst]
    _ = (256 * (256 * a.toNat + b.toNat) + c.toNat) <<< 8 ||| d.toNat := by rw [hsecond]
    _ = 256 * (256 * (256 * a.toNat + b.toNat) + c.toNat) + d.toNat := hthird

/-- The bytes of a double word make the double word. -/
@[simp] theorem doubleWordOf_bytes (w : UInt32) :
    doubleWordOf (w >>> 24).toUInt8 (w >>> 16).toUInt8 (w >>> 8).toUInt8 w.toUInt8 = w := by
  apply UInt32.toNat_inj.1
  have := w.toNat_lt
  simp only [toNat_doubleWordOf, UInt32.toNat_toUInt8, UInt32.toNat_shiftRight,
    UInt32.reduceToNat, Nat.reduceMod, Nat.shiftRight_eq_div_pow, Nat.reducePow]
  omega

/-- A word has the bytes that it is made of. -/
@[simp] theorem word_wordOf (hi lo : UInt8) : Bytes.word (wordOf hi lo) = [hi, lo] := by
  have high := hi.toNat_lt
  have hlow := lo.toNat_lt
  simp only [Bytes.word, List.cons.injEq, and_true, ← UInt8.toNat_inj, UInt16.toNat_toUInt8,
    UInt16.toNat_shiftRight, toNat_wordOf, UInt16.reduceToNat, Nat.reduceMod,
    Nat.shiftRight_eq_div_pow, Nat.reducePow]
  omega

/-- A double word has the bytes that it is made of. -/
@[simp] theorem doubleWord_doubleWordOf (a b c d : UInt8) :
    Bytes.doubleWord (doubleWordOf a b c d) = [a, b, c, d] := by
  have ha := a.toNat_lt
  have hb := b.toNat_lt
  have hc := c.toNat_lt
  have hd := d.toNat_lt
  simp only [Bytes.doubleWord, List.cons.injEq, and_true, ← UInt8.toNat_inj, UInt32.toNat_toUInt8,
    UInt32.toNat_shiftRight, toNat_doubleWordOf, UInt32.reduceToNat, Nat.reduceMod,
    Nat.shiftRight_eq_div_pow, Nat.reducePow]
  omega

/-! ### Hexadecimal -/

/-- The lower-case hexadecimal digit of the low four bits of `n`. -/
def hexDigit (n : Nat) : Char :=
  match n % 16 with
  | 0 => '0' | 1 => '1' | 2 => '2' | 3 => '3'
  | 4 => '4' | 5 => '5' | 6 => '6' | 7 => '7'
  | 8 => '8' | 9 => '9' | 10 => 'a' | 11 => 'b'
  | 12 => 'c' | 13 => 'd' | 14 => 'e' | _ => 'f'

/-- The value of a hexadecimal digit of either case. -/
def hexValue? (c : Char) : Option Nat :=
  if '0' ≤ c ∧ c ≤ '9' then some (c.toNat - '0'.toNat)
  else if 'a' ≤ c ∧ c ≤ 'f' then some (c.toNat - 'a'.toNat + 10)
  else if 'A' ≤ c ∧ c ≤ 'F' then some (c.toNat - 'A'.toNat + 10)
  else none

/-- The low four bits of a number are read back from their digit. -/
theorem hexValue?_hexDigit (n : Nat) : hexValue? (hexDigit n) = some (n % 16) := by
  have hsmall : ∀ k < 16, hexValue? (hexDigit k) = some k := by decide
  have hlow : hexDigit n = hexDigit (n % 16) := by simp [hexDigit]
  rw [hlow, hsmall _ (Nat.mod_lt _ (by decide))]

/-- The two digits of a byte. -/
def hexByte (b : UInt8) : List Char :=
  [hexDigit (b.toNat / 16), hexDigit b.toNat]

/-- The four digits of a 16-bit word. -/
def hexWord (w : UInt16) : List Char :=
  [hexDigit (w.toNat / 4096), hexDigit (w.toNat / 256), hexDigit (w.toNat / 16), hexDigit w.toNat]

/-- A byte string in hexadecimal, two digits a byte. -/
def Bytes.toHex (bytes : Bytes) : String :=
  String.ofList (bytes.flatMap hexByte)

/-! ### Rounded quotients -/

/-- The quotient of two numbers rounded to the nearest whole number, a half upwards. -/
def roundedQuotient (dividend divisor : Nat) : Nat :=
  (2 * dividend + divisor) / (2 * divisor)

@[simp] theorem roundedQuotient_one (n : Nat) : roundedQuotient n 1 = n := by
  simp only [roundedQuotient]
  omega

/-- A rounded quotient grows with the dividend. -/
theorem roundedQuotient_mono_left {a b : Nat} (divisor : Nat) (h : a ≤ b) :
    roundedQuotient a divisor ≤ roundedQuotient b divisor :=
  Nat.div_le_div_right (by omega)

/-- A rounded quotient is at most `n` exactly when the dividend is less than half a divisor above
`n` divisors. -/
theorem roundedQuotient_le_iff {dividend divisor n : Nat} (h : 0 < divisor) :
    roundedQuotient dividend divisor ≤ n ↔ 2 * dividend < (2 * n + 1) * divisor := by
  rw [roundedQuotient, ← Nat.lt_succ_iff, Nat.div_lt_iff_lt_mul (by omega)]
  constructor <;> intro hbound <;> grind

/-- A rounded quotient shrinks as the divisor grows. -/
theorem roundedQuotient_anti_right {b c : Nat} (dividend : Nat) (hb : 0 < b) (h : b ≤ c) :
    roundedQuotient dividend c ≤ roundedQuotient dividend b := by
  have hbound := (roundedQuotient_le_iff hb).1 (Nat.le_refl (roundedQuotient dividend b))
  refine (roundedQuotient_le_iff (by omega)).2 (Nat.lt_of_lt_of_le hbound ?_)
  exact Nat.mul_le_mul_left _ h

/-! ### Entries by name -/

variable {α : Type}

/-- Keeps the last of neighbouring entries of one name. -/
def keepLast : List (String × α) → List (String × α)
  | [] => []
  | [m] => [m]
  | m :: n :: rest => if m.1 = n.1 then keepLast (n :: rest) else m :: keepLast (n :: rest)

/-- Entries in the order of their names, of one name only the last. -/
def byName (entries : List (String × α)) : List (String × α) :=
  keepLast (entries.mergeSort fun a b => decide (a.1 ≤ b.1))

end SidTune
