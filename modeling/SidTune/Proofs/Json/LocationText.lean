import Mathlib.Data.List.Basic
import SidTune.Json.Basic

/-!
# Reading the texts of locations

The text of a location tells the location: it is read as names set off by points and indices in
brackets, from the root, and `$` is the root itself. Names are plain if they consist of letters; the
names of the song format are, and so is every location that begins with such a name.

## Main definitions

* `SidTune.Json.Location.ofText?`: the location that a text tells.
* `SidTune.Json.Location.Plain`: locations of plain names that begin with one.

## Main results

* `SidTune.Json.Location.ofText?_text`: the text of a plain location tells the location.
-/

namespace SidTune.Json

/-! ### Reading -/

/-- How far the text of a location has been read: into a name or an index, the characters of which
are kept, or up to the end of an index. -/
inductive Reached where
  | name (sofar : List Char)
  | index (sofar : List Char)
  | segmentEnd

/-- A member with a name that is not empty. -/
def Segment.ofName? (name : List Char) : Option Segment :=
  if name = [] then none else some (.member (String.ofList name))

/-- An item with an index in digits, of which there has to be one. -/
def Segment.ofIndex? (digits : List Char) : Option Segment :=
  if digits ≠ [] ∧ digits.all Char.isDigit then some (.element (Nat.ofDigitChars 10 digits 0))
  else none

/-- The segments that the rest of a text tells. -/
def segmentsFrom? : Reached → List Char → Option (List Segment)
  | .name sofar, [] => (Segment.ofName? sofar).map ([·])
  | .name sofar, c :: cs =>
    if c = '.' then
      (Segment.ofName? sofar).bind fun s => (segmentsFrom? (.name []) cs).map (s :: ·)
    else if c = '[' then
      (Segment.ofName? sofar).bind fun s => (segmentsFrom? (.index []) cs).map (s :: ·)
    else segmentsFrom? (.name (sofar ++ [c])) cs
  | .index _, [] => none
  | .index sofar, c :: cs =>
    if c = ']' then
      (Segment.ofIndex? sofar).bind fun s => (segmentsFrom? .segmentEnd cs).map (s :: ·)
    else segmentsFrom? (.index (sofar ++ [c])) cs
  | .segmentEnd, [] => some []
  | .segmentEnd, c :: cs =>
    if c = '.' then segmentsFrom? (.name []) cs
    else if c = '[' then segmentsFrom? (.index []) cs
    else none

/-- The location that a text tells. -/
def Location.ofText? (text : String) : Option Location :=
  if text = "$" then some [] else segmentsFrom? (.name []) text.toList

/-! ### Plain locations -/

/-- A name of letters. -/
def IsPlainName (name : String) : Prop :=
  name.toList ≠ [] ∧ name.toList.all Char.isAlpha

instance (name : String) : Decidable (IsPlainName name) :=
  inferInstanceAs (Decidable (_ ∧ _))

/-- A segment with a plain name, or an index. -/
def Segment.Plain : Segment → Prop
  | .member name => IsPlainName name
  | .element _ => True

/-- A location that begins with a name and in which all names are plain. -/
def Location.Plain (l : Location) : Prop :=
  (∃ name rest, l = .member name :: rest) ∧ ∀ s ∈ l, s.Plain

/-! ### The text of a plain location -/

variable {c : Char} {cs sofar : List Char} {segments : List Segment}

theorem segmentsFrom?_name {name : List Char} (hletters : name.all Char.isAlpha) :
    segmentsFrom? (.name sofar) (name ++ cs) = segmentsFrom? (.name (sofar ++ name)) cs := by
  induction name generalizing sofar with
  | nil => simp
  | cons c name ih =>
    rw [List.all_cons, Bool.and_eq_true] at hletters
    have hpoint : c ≠ '.' := by
      rintro rfl
      exact absurd hletters.1 (by decide)
    have hbracket : c ≠ '[' := by
      rintro rfl
      exact absurd hletters.1 (by decide)
    rw [List.cons_append, segmentsFrom?, if_neg hpoint, if_neg hbracket, ih hletters.2,
      List.append_assoc, List.singleton_append]

private theorem segmentsFrom?_index {digits : List Char} (hall : digits.all Char.isDigit) :
    segmentsFrom? (.index sofar) (digits ++ cs) = segmentsFrom? (.index (sofar ++ digits)) cs := by
  induction digits generalizing sofar with
  | nil => simp
  | cons c digits ih =>
    rw [List.all_cons, Bool.and_eq_true] at hall
    have hbracket : c ≠ ']' := by
      rintro rfl
      exact absurd hall.1 (by decide)
    rw [List.cons_append, segmentsFrom?, if_neg hbracket, ih hall.2, List.append_assoc,
      List.singleton_append]

/-- The characters of segments that are not the first. -/
def segmentChars (segments : List Segment) : List Char :=
  segments.flatMap fun s => s.text.toList

/-- After a name, what follows is read as after an index. -/
theorem segmentsFrom?_after_name {name : String} (hnonempty : name.toList ≠ []) :
    segmentsFrom? (.name name.toList) (segmentChars segments) =
      (segmentsFrom? .segmentEnd (segmentChars segments)).map (.member name :: ·) := by
  have hnamed : Segment.ofName? name.toList = some (.member name) := by
    rw [Segment.ofName?, if_neg hnonempty, String.ofList_toList]
  cases segments with
  | nil => simp [segmentChars, segmentsFrom?, hnamed]
  | cons s segments => cases s <;> simp [segmentChars, Segment.text, segmentsFrom?, hnamed]

/-- The texts of plain segments are read as the segments. -/
theorem segmentsFrom?_segmentChars (hplain : ∀ s ∈ segments, s.Plain) :
    segmentsFrom? .segmentEnd (segmentChars segments) = some segments := by
  induction segments with
  | nil => rfl
  | cons s segments ih =>
    rw [List.forall_mem_cons] at hplain
    cases s with
    | member name =>
      obtain ⟨hnonempty, hletters⟩ := hplain.1
      have hchars : segmentChars (.member name :: segments) =
          '.' :: (name.toList ++ segmentChars segments) := by simp [segmentChars, Segment.text]
      rw [hchars, segmentsFrom?, if_pos rfl, segmentsFrom?_name hletters, List.nil_append,
        segmentsFrom?_after_name hnonempty, ih hplain.2]
      rfl
    | element i =>
      have hchars : segmentChars (.element i :: segments) =
          '[' :: (Nat.toDigits 10 i ++ ']' :: segmentChars segments) := by
        simp [segmentChars, Segment.text]
      have hdigits : (Nat.toDigits 10 i).all Char.isDigit := List.all_eq_true.2 fun _ =>
        Nat.isDigit_of_mem_toDigits (by decide) (by decide)
      have hindex : Segment.ofIndex? (Nat.toDigits 10 i) = some (.element i) := by
        rw [Segment.ofIndex?, if_pos ⟨Nat.toDigits_ne_nil, hdigits⟩,
          Nat.ofDigitChars_toDigits (by decide) (by decide)]
      rw [hchars, segmentsFrom?, if_neg (by decide), if_pos rfl, segmentsFrom?_index hdigits,
        List.nil_append, segmentsFrom?, if_pos rfl, hindex, ih hplain.2]
      rfl

/-- The text of a plain location tells the location. -/
theorem Location.ofText?_text {l : Location} (hplain : l.Plain) : ofText? l.text = some l := by
  obtain ⟨⟨name, rest, rfl⟩, hall⟩ := hplain
  rw [List.forall_mem_cons] at hall
  obtain ⟨⟨hnonempty, hletters⟩, hall⟩ := hall
  have hchars : (Location.text (.member name :: rest)).toList =
      name.toList ++ segmentChars rest := by
    simp [Location.text, segmentChars, List.flatMap_map]
  have hnotRoot : Location.text (.member name :: rest) ≠ "$" := by
    intro hroot
    obtain ⟨c, cs, hfirst⟩ := List.exists_cons_of_ne_nil hnonempty
    rw [hroot, hfirst] at hchars
    have hdollar : c = '$' := (List.cons.inj hchars.symm).1
    rw [hfirst, hdollar, List.all_cons, Bool.and_eq_true] at hletters
    exact absurd hletters.1 (by decide)
  rw [ofText?, if_neg hnotRoot, hchars, segmentsFrom?_name hletters, List.nil_append,
    segmentsFrom?_after_name hnonempty, segmentsFrom?_segmentChars hall]
  rfl

end SidTune.Json
