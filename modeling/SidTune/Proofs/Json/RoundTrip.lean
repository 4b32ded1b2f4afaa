import Mathlib.Data.Nat.Digits.Defs
import SidTune.Json.Printer
import SidTune.Json.Reader
import SidTune.Proofs.Basic

/-!
# Reading compact text back

The compact text of a value whose numbers are integers is read back as that value, its objects in
the order of their names. Tokens come first: an escaped character is read as the character, and the
digits of an integer as the integer if what follows cannot belong to a number. Values follow by
induction: what is read is written in full, and the text after it is left.

## Main definitions

* `SidTune.Json.Plain`: values of integers, texts, arrays and objects, nested only so far.
* `SidTune.Json.ordered`: a value with its objects in the order of their names.

## Main results

* `SidTune.Json.readString_flatMap_escape`, `SidTune.Json.readSigned_integerChars`: tokens are read
  back.
* `SidTune.Json.Plain.rereads`: a value at the start of a text is read back.
* `SidTune.Json.parse_compact`: the compact text of a value is read as the value.
* `SidTune.Json.member?_ordered_object`: the order of the names does not matter to a lookup.
-/

namespace SidTune.Json

/-! ### Strings -/

section Strings

variable {c : Char} {seen cs rest : List Char}

private theorem readHex_byte {n : Nat} (hbyte : n < 256) :
    readHex ('0' :: '0' :: hexDigit (n / 16) :: hexDigit n :: rest) = .ok (n, rest) := by
  have hzero : hexValue? '0' = some 0 := by decide
  simp only [readHex, hzero, hexValue?_hexDigit, Except.ok.injEq, Prod.mk.injEq, and_true]
  omega

/-- What is written for a character that may not stand in a string starts with a backslash, and the
rest of it is an escape of the character. -/
theorem readEscape_escape (rest : List Char) (hspecial : c = '"' ∨ c = '\\' ∨ c.toNat < 0x20) :
    ∃ body, escape c = '\\' :: body ∧ readEscape (body ++ rest) = .ok (c, rest) := by
  by_cases hquote : c = '"'
  · exact ⟨['"'], by simp [escape, hquote], by rw [hquote]; rfl⟩
  by_cases hbackslash : c = '\\'
  · exact ⟨['\\'], by rw [escape, if_neg hquote, if_pos hbackslash], by rw [hbackslash]; rfl⟩
  have hcontrol : c.toNat < 0x20 := (hspecial.resolve_left hquote).resolve_left hbackslash
  have hnamed {n : Nat} (h : c.toNat = n) : c = Char.ofNat n := by rw [← h, Char.ofNat_toNat]
  rw [escape, if_neg hquote, if_neg hbackslash, if_pos hcontrol]
  split
  case h_6 =>
    refine ⟨_, rfl, ?_⟩
    simp only [List.cons_append, List.nil_append, readEscape,
      readHex_byte (Nat.lt_trans hcontrol (by decide)), Char.ofNat_toNat]
    rw [if_neg (by omega), if_neg (by omega)]
  all_goals
    next h => exact ⟨_, rfl, by rw [hnamed h]; rfl⟩

private theorem escape_of_not_special (hplain : ¬(c = '"' ∨ c = '\\' ∨ c.toNat < 0x20)) :
    escape c = [c] := by
  simp only [not_or] at hplain
  simp [escape, hplain]

private theorem readString_escape :
    readString seen (escape c ++ rest) = readString (c :: seen) rest := by
  by_cases hspecial : c = '"' ∨ c = '\\' ∨ c.toNat < 0x20
  · obtain ⟨body, hwritten, hread⟩ := readEscape_escape rest hspecial
    rw [hwritten, List.cons_append, readString]
    split
    · next h => rw [hread] at h; cases h
    · next h => rw [hread] at h; cases h; rfl
  · rw [escape_of_not_special hspecial]
    simp only [not_or] at hspecial
    rw [List.cons_append, List.nil_append, readString.eq_4 _ _ _ hspecial.1 hspecial.2.1,
      if_neg hspecial.2.2]

/-- The written form of a text is read as the text. -/
theorem readString_flatMap_escape :
    readString seen (cs.flatMap escape ++ '"' :: rest) =
      .ok (String.ofList (seen.reverse ++ cs), rest) := by
  induction cs generalizing seen with
  | nil => simp [readString]
  | cons c cs ih => simp [readString_escape, ih]

end Strings

/-! ### Numbers -/

/-- A text at which a number that stands before it ends. -/
def EndsNumber (rest : List Char) : Prop :=
  ∀ c ∈ rest.head?, c.isDigit = false ∧ c ≠ '.' ∧ c ≠ 'e' ∧ c ≠ 'E'

namespace EndsNumber

variable {rest : List Char}

private theorem any_isDigit (hends : EndsNumber rest) : rest.head?.any Char.isDigit = false := by
  cases rest <;> simp_all [EndsNumber]

private theorem takeWhile_isDigit (hends : EndsNumber rest) : rest.takeWhile Char.isDigit = [] := by
  cases rest <;> simp_all [EndsNumber]

private theorem dropWhile_isDigit (hends : EndsNumber rest) :
    rest.dropWhile Char.isDigit = rest := by
  cases rest <;> simp_all [EndsNumber]

end EndsNumber

private theorem le_ofDigitChars {significand : Nat} {digits : List Char} :
    significand ≤ Nat.ofDigitChars 10 digits significand := by
  induction digits generalizing significand with
  | nil => exact Nat.le_refl _
  | cons c digits ih =>
    rw [Nat.ofDigitChars_cons]
    exact Nat.le_trans (by omega) ih

/-- All digits fit a significand that stays below `2 ^ 64`. -/
theorem absorb_eq_ofDigitChars {significand : Nat} {digits : List Char}
    (hfits : Nat.ofDigitChars 10 digits significand < 0x10000000000000000) :
    absorb significand digits = (Nat.ofDigitChars 10 digits significand, []) := by
  induction digits generalizing significand with
  | nil => rfl
  | cons c digits ih =>
    rw [Nat.ofDigitChars_cons] at hfits
    have hstep : significand * 10 + digitValue c = 10 * significand + (c.toNat - '0'.toNat) := by
      rw [digitValue, Nat.mul_comm]
    have hbelow : 10 * significand + (c.toNat - '0'.toNat) < 0x10000000000000000 :=
      Nat.lt_of_le_of_lt le_ofDigitChars hfits
    rw [absorb, hstep, if_pos hbelow, ih hfits, Nat.ofDigitChars_cons]

/-- Only zero is written with a leading zero. -/
theorem head_toDigits_ne_zero {n : Nat} (hpos : 0 < n) : (Nat.toDigits 10 n).head? ≠ some '0' := by
  induction n using Nat.strongRecOn with
  | ind n ih =>
    by_cases hsmall : n < 10
    · rw [Nat.toDigits_of_lt_base hsmall]
      have hnonzero : ∀ k < 10, 0 < k → k.digitChar ≠ '0' := by decide
      simpa using hnonzero n hsmall hpos
    · have hfirst := ih (n / 10) (by omega) (by omega)
      rw [Nat.toDigits_of_base_le (by decide) (by omega)]
      cases hdigits : Nat.toDigits 10 (n / 10) with
      | nil => exact absurd hdigits Nat.toDigits_ne_nil
      | cons c cs => simpa [hdigits] using hfirst

private theorem readWhole_toDigits (negative : Bool) {n : Nat} {rest : List Char}
    (hends : EndsNumber rest) (hfits : n < 0x10000000000000000) :
    readWhole negative (Nat.toDigits 10 n) rest = .ok (ofInteger negative n, rest) := by
  have hvalue : Nat.ofDigitChars 10 (Nat.toDigits 10 n) 0 = n :=
    Nat.ofDigitChars_toDigits (by decide) (by decide)
  have habsorbed : absorb 0 (Nat.toDigits 10 n) = (n, []) := by
    rw [absorb_eq_ofDigitChars (by rwa [hvalue]), hvalue]
  simp only [readWhole, habsorbed]
  split
  · next h => simp [EndsNumber] at hends
  · rw [if_pos ⟨trivial, fun h => (hends _ h).2.2.1 rfl, fun h => (hends _ h).2.2.2 rfl⟩]

/-- The digits of a number are read as the number. -/
theorem readNumber_toDigits (negative : Bool) {n : Nat} {rest : List Char} (hends : EndsNumber rest)
    (hfits : n < 0x10000000000000000) :
    readNumber negative (Nat.toDigits 10 n ++ rest) = .ok (ofInteger negative n, rest) := by
  have hread := readWhole_toDigits negative hends hfits
  rcases Nat.eq_zero_or_pos n with rfl | hpos
  · rw [Nat.toDigits_zero] at hread ⊢
    rw [List.cons_append, List.nil_append, readNumber, hread, if_neg (by simp [hends.any_isDigit])]
  · have hall : ∀ c ∈ Nat.toDigits 10 n, c.isDigit = true := fun c =>
      Nat.isDigit_of_mem_toDigits (by decide) (by decide)
    have hfirst := head_toDigits_ne_zero hpos
    have hwhole : (Nat.toDigits 10 n ++ rest).takeWhile Char.isDigit = Nat.toDigits 10 n := by
      rw [List.takeWhile_append_of_pos hall, hends.takeWhile_isDigit, List.append_nil]
    have hleft : (Nat.toDigits 10 n ++ rest).dropWhile Char.isDigit = rest := by
      rw [List.dropWhile_append_of_pos hall, hends.dropWhile_isDigit]
    cases hdigits : Nat.toDigits 10 n with
    | nil => exact absurd hdigits Nat.toDigits_ne_nil
    | cons c cs =>
      rw [hdigits] at hfirst hall hwhole hleft hread
      rw [List.cons_append] at hwhole hleft ⊢
      rw [readNumber.eq_3 _ _ _ (by simpa using hfirst), if_pos (hall c List.mem_cons_self), hwhole,
        hleft, hread]

theorem integerChars_eq_cons (n : Int) :
    ∃ c cs, integerChars n = c :: cs ∧ (c = '-' ∨ c.isDigit = true) := by
  unfold integerChars
  split
  · exact ⟨'-', _, rfl, .inl rfl⟩
  · cases hdigits : Nat.toDigits 10 n.natAbs with
    | nil => exact absurd hdigits Nat.toDigits_ne_nil
    | cons c cs =>
      exact ⟨c, cs, rfl, .inr (Nat.isDigit_of_mem_toDigits (b := 10) (by decide) (by decide)
        (hdigits ▸ List.mem_cons_self))⟩

/-- What is written for an integer of at most 64 bits is read as the integer. -/
theorem readSigned_integerChars {n : Int} {rest : List Char} (hends : EndsNumber rest)
    (hleast : -0x8000000000000000 ≤ n) (hmost : n < 0x10000000000000000) :
    readSigned (integerChars n ++ rest) = .ok (.number (.integer n), rest) := by
  unfold integerChars
  split
  · next hnegative =>
    have hvalue : ofInteger true n.natAbs = .integer n := by
      rw [ofInteger, if_neg (by decide), if_pos (by omega)]
      exact congrArg Number.integer (by omega)
    simp only [List.cons_append, readSigned,
      readNumber_toDigits true hends (n := n.natAbs) (by omega), hvalue]
  · next hnatural =>
    have hvalue : ofInteger false n.natAbs = .integer n := by
      rw [ofInteger, if_pos (by decide)]
      exact congrArg Number.integer (by omega)
    have hread := readNumber_toDigits false hends (n := n.natAbs) (by omega)
    cases hdigits : Nat.toDigits 10 n.natAbs with
    | nil => exact absurd hdigits Nat.toDigits_ne_nil
    | cons c cs =>
      have hdigit : c.isDigit = true :=
        Nat.isDigit_of_mem_toDigits (b := 10) (by decide) (by decide)
        (hdigits ▸ List.mem_cons_self)
      rw [hdigits, List.cons_append] at hread
      rw [List.cons_append, readSigned, hread, hvalue]
      rintro _ ⟨⟩
      cases hdigit

/-! ### Values -/

mutual

/-- A value with its objects in the order of their names, and of members with one name only the
last. -/
def ordered : Json → Json
  | .null => .null
  | .bool b => .bool b
  | .number n => .number n
  | .string s => .string s
  | .array items => .array (orderedItems items)
  | .object members => ofMembers (orderedMembers members)

/-- The items of an array, each of them ordered. -/
def orderedItems : List Json → List Json
  | [] => []
  | item :: rest => item.ordered :: orderedItems rest

/-- The members of an object, each of them ordered. -/
def orderedMembers : List (String × Json) → List (String × Json)
  | [] => []
  | (name, item) :: rest => (name, item.ordered) :: orderedMembers rest

end

theorem orderedItems_eq_map (items : List Json) : orderedItems items = items.map ordered := by
  induction items with
  | nil => rfl
  | cons item rest ih => rw [orderedItems, ih, List.map_cons]

theorem orderedMembers_eq_map (members : List (String × Json)) :
    orderedMembers members = members.map fun m => (m.1, m.2.ordered) := by
  induction members with
  | nil => rfl
  | cons m rest ih => rw [orderedMembers, ih, List.map_cons]

/-- Values whose numbers are integers of at most 64 bits and whose arrays and objects are nested at
most `room` deep. -/
inductive Plain : (room : Nat) → Json → Prop where
  | null {room : Nat} : Plain room .null
  | bool {room : Nat} (b : Bool) : Plain room (.bool b)
  | integer {room : Nat} {n : Int} (least : -0x8000000000000000 ≤ n)
      (most : n < 0x10000000000000000) : Plain room (.number (.integer n))
  | string {room : Nat} (s : String) : Plain room (.string s)
  | array {room : Nat} {items : List Json} (each : ∀ item ∈ items, Plain room item) :
      Plain (room + 1) (.array items)
  | object {room : Nat} {members : List (String × Json)} (each : ∀ m ∈ members, Plain room m.2) :
      Plain (room + 1) (.object members)

/-- A text at whose start a value may be read: no blank and no closing bracket. -/
def StartsValue (cs : List Char) : Prop :=
  ∃ c rest, cs = c :: rest ∧ isBlank c = false ∧ c ≠ ']' ∧ c ≠ '\x7d'

theorem StartsValue.append {cs : List Char} (hstarts : StartsValue cs) (rest : List Char) :
    StartsValue (cs ++ rest) := by
  obtain ⟨c, tail, rfl, hfirst⟩ := hstarts
  exact ⟨c, tail ++ rest, rfl, hfirst⟩

theorem isBlank_eq_false_of_isDigit {c : Char} (hdigit : c.isDigit = true) : isBlank c = false := by
  by_contra hblank
  simp only [isBlank, Bool.not_eq_false, Bool.or_eq_true, decide_eq_true_eq] at hblank
  obtain ((rfl | rfl) | rfl) | rfl := hblank <;> cases hdigit

theorem Plain.startsValue {room : Nat} {v : Json} (hplain : v.Plain room) :
    StartsValue v.chars := by
  cases hplain with
  | null => exact ⟨'n', _, by rw [chars], by decide⟩
  | bool b => cases b <;> exact ⟨_, _, by rw [chars], by decide⟩
  | integer =>
    obtain ⟨c, cs, hwritten, rfl | hdigit⟩ := integerChars_eq_cons _
    · exact ⟨'-', cs, by rw [chars, Number.chars, hwritten], by decide⟩
    · refine ⟨c, cs, by rw [chars, Number.chars, hwritten], isBlank_eq_false_of_isDigit hdigit, ?_,
        ?_⟩
      all_goals
        rintro rfl
        cases hdigit
  | string s => exact ⟨'"', _, by rw [chars, stringChars], by decide⟩
  | array => exact ⟨'[', _, by rw [chars], by decide⟩
  | object => exact ⟨'\x7b', _, by rw [chars], by decide⟩

/-! ### Arrays and objects -/

section Lists

variable {fuel : Nat} {rest : List Char} {value : List Char → Reading Json}

/-- A value is read back: it starts as a value, and if a number before it ends, what follows it is
left. -/
structure Rereads (value : List Char → Reading Json) (v : Json) : Prop where
  starts : StartsValue v.chars
  read {rest : List Char} (ends : EndsNumber rest) : value (v.chars ++ rest) = .ok (v.ordered, rest)

theorem endsNumber_itemTail (items : List Json) (rest : List Char) :
    EndsNumber (itemTail items ++ rest) := by
  cases items <;> simp [itemTail, EndsNumber]

theorem endsNumber_memberTail (members : List (String × Json)) (rest : List Char) :
    EndsNumber (memberTail members ++ rest) := by
  cases members with
  | nil => simp [memberTail, EndsNumber]
  | cons m members => simp [memberTail, EndsNumber]

/-- Items that are read back one by one are read back as a list. -/
theorem readItems_chars {item : Json} {items : List Json} (seen : List Json) (rest : List Char)
    (henough : items.length < fuel) (heach : ∀ v ∈ item :: items, Rereads value v) :
    readItems value seen fuel (item.chars ++ (itemTail items ++ rest)) =
      .ok (seen.reverse ++ (item :: items).map ordered, rest) := by
  induction items generalizing item seen fuel with
  | nil =>
    obtain _ | fuel := fuel
    · cases henough
    have hfirst := (heach item List.mem_cons_self).read (endsNumber_itemTail [] rest)
    simp only [readItems, hfirst]
    simp [itemTail, skipBlank, isBlank]
  | cons next items ih =>
    obtain _ | fuel := fuel
    · cases henough
    have hfirst := (heach item List.mem_cons_self).read (endsNumber_itemTail (next :: items) rest)
    have hothers := @ih fuel next (item.ordered :: seen) (by simpa using henough)
      fun v hmem => heach v (List.mem_cons_of_mem _ hmem)
    obtain ⟨c, cs, hwritten, hvisible, hopen₁, hopen₂⟩ :=
      ((heach next (by simp)).starts.append (itemTail items ++ rest))
    have hcomma : skipBlank (itemTail (next :: items) ++ rest) = ',' :: c :: cs := by
      simp [itemTail, skipBlank, isBlank, hwritten]
    have hstart : skipBlank (c :: cs) = c :: cs := by simp [skipBlank, hvisible]
    rw [hwritten] at hothers
    -- What follows the comma starts a value, so it is not the bracket that would end the list.
    simp only [readItems, hfirst, hcomma, hstart]
    split
    · next h => exact absurd (List.cons.inj h).1 hopen₁
    · rw [hothers]
      simp

theorem skipBlank_stringChars (s cs : List Char) :
    skipBlank (stringChars s ++ cs) = stringChars s ++ cs := by
  simp [stringChars, skipBlank, isBlank]

/-- A member whose value is read back is read back. -/
theorem readMember_chars {name : String} {v : Json} (hrereads : Rereads value v)
    (hends : EndsNumber rest) :
    readMember value (stringChars name.toList ++ ':' :: (v.chars ++ rest)) =
      .ok ((name, v.ordered), rest) := by
  have hcolon : skipBlank (':' :: (v.chars ++ rest)) = ':' :: (v.chars ++ rest) := by
    simp [skipBlank, isBlank]
  simp only [stringChars, List.cons_append, List.append_assoc, List.nil_append, readMember,
    readString_flatMap_escape, hcolon, hrereads.read hends, List.reverse_nil, String.ofList_toList]

theorem readMembers_chars {m : String × Json} {members : List (String × Json)}
    (seen : List (String × Json)) (rest : List Char) (henough : members.length < fuel)
    (heach : ∀ n ∈ m :: members, Rereads value n.2) :
    readMembers value seen fuel
        (stringChars m.1.toList ++ ':' :: (m.2.chars ++ (memberTail members ++ rest))) =
      .ok (seen.reverse ++ (m :: members).map fun n => (n.1, n.2.ordered), rest) := by
  induction members generalizing m seen fuel with
  | nil =>
    obtain _ | fuel := fuel
    · cases henough
    simp only [readMembers,
      readMember_chars (heach m List.mem_cons_self) (endsNumber_memberTail [] rest)]
    simp [memberTail, skipBlank, isBlank]
  | cons next members ih =>
    obtain _ | fuel := fuel
    · cases henough
    have hothers := @ih fuel next ((m.1, m.2.ordered) :: seen) (by simpa using henough)
      fun n hmem => heach n (List.mem_cons_of_mem _ hmem)
    have hcomma : skipBlank (memberTail (next :: members) ++ rest) = ',' ::
        (stringChars next.1.toList ++ ':' :: (next.2.chars ++ (memberTail members ++ rest))) := by
      simp [memberTail, skipBlank, isBlank]
    simp only [readMembers,
      readMember_chars (heach m List.mem_cons_self) (endsNumber_memberTail _ rest), hcomma,
      skipBlank_stringChars]
    split
    · next h => simp [stringChars] at h
    · rw [hothers]
      simp

theorem readArray_chars {items : List Json} (henough : items.length ≤ fuel)
    (heach : ∀ v ∈ items, Rereads value v) :
    readArray value fuel (itemChars items ++ rest) = .ok (.array (orderedItems items), rest) := by
  cases items with
  | nil => simp [readArray, itemChars, skipBlank, isBlank, orderedItems]
  | cons item items =>
    obtain ⟨c, cs, hwritten, hvisible, hopen₁, -⟩ :=
      (heach item List.mem_cons_self).starts.append (itemTail items ++ rest)
    have hstart : skipBlank (c :: cs) = c :: cs := by simp [skipBlank, hvisible]
    have hread := readItems_chars [] rest henough heach
    rw [hwritten] at hread
    rw [itemChars, List.append_assoc, hwritten, readArray, hstart]
    split
    · next h => cases h
    · next h => exact absurd (List.cons.inj h).1 hopen₁
    · simp [hread, orderedItems_eq_map]

theorem readObject_chars {members : List (String × Json)} (henough : members.length ≤ fuel)
    (heach : ∀ m ∈ members, Rereads value m.2) :
    readObject value fuel (memberChars members ++ rest) =
      .ok (ofMembers (orderedMembers members), rest) := by
  cases members with
  | nil =>
    simp [readObject, memberChars, skipBlank, isBlank, orderedMembers, ofMembers, byName, keepLast]
  | cons m members =>
    have hread := readMembers_chars [] rest henough heach
    rw [memberChars, List.append_assoc, List.cons_append, List.append_assoc, readObject,
      skipBlank_stringChars]
    split
    · next h => simp [stringChars] at h
    · next h => simp [stringChars] at h
    · simp [hread, orderedMembers_eq_map]

end Lists

/-! ### Lengths -/

/-- A list of items is written with more characters than it has items, and with at least those of
each item. -/
theorem itemTail_bounds (items : List Json) : items.length < (itemTail items).length ∧
    ∀ v ∈ items, v.chars.length ≤ (itemTail items).length := by
  induction items with
  | nil => simp [itemTail]
  | cons item items ih =>
    simp only [itemTail, List.length_cons, List.length_append, List.forall_mem_cons]
    exact ⟨by omega, by omega, fun v hmem => by have := ih.2 v hmem; omega⟩

theorem itemChars_bounds (items : List Json) : items.length ≤ (itemChars items).length ∧
    ∀ v ∈ items, v.chars.length ≤ (itemChars items).length := by
  cases items with
  | nil => simp
  | cons item items =>
    have htail := itemTail_bounds items
    simp only [itemChars, List.length_cons, List.length_append, List.forall_mem_cons]
    exact ⟨by omega, by omega, fun v hmem => by have := htail.2 v hmem; omega⟩

theorem memberTail_bounds (members : List (String × Json)) :
    members.length < (memberTail members).length ∧
      ∀ m ∈ members, m.2.chars.length ≤ (memberTail members).length := by
  induction members with
  | nil => simp [memberTail]
  | cons m members ih =>
    simp only [memberTail, List.length_cons, List.length_append, List.forall_mem_cons]
    exact ⟨by omega, by omega, fun n hmem => by have := ih.2 n hmem; omega⟩

theorem memberChars_bounds (members : List (String × Json)) :
    members.length ≤ (memberChars members).length ∧
      ∀ m ∈ members, m.2.chars.length ≤ (memberChars members).length := by
  cases members with
  | nil => simp
  | cons m members =>
    have htail := memberTail_bounds members
    simp only [memberChars, List.length_cons, List.length_append, List.forall_mem_cons]
    exact ⟨by omega, by omega, fun n hmem => by have := htail.2 n hmem; omega⟩

/-! ### Texts -/

/-- A number is read by its first character, which starts nothing else. -/
theorem readValue_of_number {fuel room : Nat} {c : Char} {cs : List Char}
    (hfirst : c = '-' ∨ c.isDigit = true) :
    readValue fuel room (c :: cs) = readSigned (c :: cs) := by
  have hvisible : isBlank c = false := by
    rcases hfirst with rfl | hdigit
    · decide
    · exact isBlank_eq_false_of_isDigit hdigit
  have hstart : skipBlank (c :: cs) = c :: cs := by simp [skipBlank, hvisible]
  rw [readValue, hstart]
  split
  case h_1 h => cases h
  case h_8 h =>
    obtain ⟨rfl, rfl⟩ := List.cons.inj h
    rw [if_pos hfirst]
  all_goals
    next h => exact absurd ((List.cons.inj h).1 ▸ hfirst) (by decide)

/-- A plain value is read back with room for its nesting and fuel for its text. -/
theorem Plain.rereads {fuel room : Nat} {v : Json} (hplain : v.Plain room)
    (henough : v.chars.length ≤ fuel) : Rereads (readValue fuel room) v where
  starts := hplain.startsValue
  read {rest} hends := by
    induction hplain generalizing rest with
    | null => simp [chars, readValue, skipBlank, isBlank, readWord, ordered]
    | bool b => cases b <;> simp [chars, readValue, skipBlank, isBlank, readWord, ordered]
    | @integer room n hleast hmost =>
      have hread := readSigned_integerChars hends hleast hmost
      obtain ⟨c, cs, hwritten, hfirst⟩ := integerChars_eq_cons n
      rw [hwritten, List.cons_append] at hread
      rw [chars, Number.chars, hwritten, List.cons_append, readValue_of_number hfirst, hread,
        ordered]
    | string s =>
      have hquote (cs : List Char) : skipBlank ('"' :: cs) = '"' :: cs := by
        simp [skipBlank, isBlank]
      simp only [chars, stringChars, List.cons_append, List.append_assoc, List.nil_append,
        readValue, hquote, readString_flatMap_escape, ordered, List.reverse_nil,
        String.ofList_toList]
    | @array room items heach ih =>
      have hbracket (cs : List Char) : skipBlank ('[' :: cs) = '[' :: cs := by
        simp [skipBlank, isBlank]
      -- Fuel is one for each character: the brackets leave enough for every item.
      obtain ⟨hcount, hsize⟩ := itemChars_bounds items
      simp only [chars, List.length_cons] at henough
      have hitems (v) (hmem : v ∈ items) : Rereads (readValue fuel room) v :=
        ⟨(heach v hmem).startsValue, ih v hmem (by have := hsize v hmem; omega)⟩
      simp only [chars, List.cons_append, readValue, hbracket, ordered]
      exact readArray_chars (by omega) hitems
    | @object room members heach ih =>
      have hbrace (cs : List Char) : skipBlank ('\x7b' :: cs) = '\x7b' :: cs := by
        simp [skipBlank, isBlank]
      obtain ⟨hcount, hsize⟩ := memberChars_bounds members
      simp only [chars, List.length_cons] at henough
      have hmembers (m) (hmem : m ∈ members) : Rereads (readValue fuel room) m.2 :=
        ⟨(heach m hmem).startsValue, ih m hmem (by have := hsize m hmem; omega)⟩
      simp only [chars, List.cons_append, readValue, hbrace, ordered]
      exact readObject_chars (by omega) hmembers

/-- The compact text of a plain value is read as the value. -/
theorem parse_compact {v : Json} (hplain : v.Plain maxDepth) : parse v.compact = .ok v.ordered := by
  have halone : EndsNumber [] := by simp [EndsNumber]
  have hread := (hplain.rereads (Nat.le_refl _)).read halone
  rw [List.append_nil] at hread
  simp only [parse, compact, String.toList_ofList, hread, skipBlank, List.dropWhile_nil]

/-! ### Members in order -/

/-- The members of an object of distinct names are found in the ordered object. -/
theorem member?_ordered_object {members : List (String × Json)}
    (hdistinct : (members.map Prod.fst).Nodup) (name : String) :
    (object members).ordered.member? name = (members.lookup name).map ordered := by
  have hnames : (members.map fun m => (m.1, m.2.ordered)).map Prod.fst = members.map Prod.fst := by
    simp
  rw [ordered, orderedMembers_eq_map, ofMembers]
  refine (lookup_byName_of_nodup (hnames ▸ hdistinct)).trans ?_
  clear hdistinct hnames
  induction members with
  | nil => rfl
  | cons m rest ih =>
    obtain ⟨key, v⟩ := m
    simp only [List.map_cons, List.lookup_cons]
    cases name == key with
    | true => rfl
    | false => exact ih

end SidTune.Json
