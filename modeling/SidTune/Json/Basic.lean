import SidTune.Basic

/-!
# JSON values

A song document is a JSON value. Integers that fit 64 bits keep their value; every other number is
a binary64 number and is held by its bits, so that values can be compared exactly.

## Main definitions

* `SidTune.Json.Number`, `SidTune.Json`: numbers and values.
* `SidTune.Json.member?`: a member of an object.
* `SidTune.Json.ofMembers`: the object of a list of members, in key order, a later member replacing
  an earlier one of the same name.
* `SidTune.Json.Location`: the way from a root value to one inside it.
-/

namespace SidTune

/-- A number of a JSON text. -/
inductive Json.Number where
  /-- An integer of at most 64 bits: at least `-2 ^ 63` and below `2 ^ 64`. -/
  | integer (value : Int)
  /-- A binary64 number, by its bits. -/
  | binary (bits : UInt64)
  deriving DecidableEq, Repr, Inhabited

/-- A JSON value. -/
inductive Json where
  | null
  | bool (value : Bool)
  | number (value : Json.Number)
  | string (value : String)
  | array (items : List Json)
  | object (members : List (String × Json))
  deriving Repr, Inhabited

namespace Json

/-- The natural number `n` as a value. -/
def ofNat (n : Nat) : Json :=
  .number (.integer n)

/-! ### Views -/

/-- The integer a value is, if it is one that fits a signed 64-bit word. -/
def int? : Json → Option Int
  | .number (.integer n) => if n < 0x8000000000000000 then some n else none
  | _ => none

/-- The text a value is, if it is one. -/
def text? : Json → Option String
  | .string s => some s
  | _ => none

/-- The items of a value, if it is an array. -/
def items? : Json → Option (List Json)
  | .array items => some items
  | _ => none

/-- The members of a value, if it is an object. -/
def members? : Json → Option (List (String × Json))
  | .object members => some members
  | _ => none

/-- The member of the given name, if the value is an object with one. -/
def member? (value : Json) (name : String) : Option Json :=
  value.members?.bind (·.lookup name)

/-! ### Objects -/

/-- The object with the given members: in the order of their names, and of members with one name
only the last. -/
def ofMembers (members : List (String × Json)) : Json :=
  .object (byName members)

/-! ### Locations -/

/-- One step into a value. -/
inductive Segment where
  | member (name : String)
  | element (index : Nat)
  deriving DecidableEq, Repr

/-- The way from a root value to one inside it. -/
abbrev Location := List Segment

/-- The text of a step that is not the first. -/
def Segment.text : Segment → String
  | .member name => "." ++ name
  | .element index => "[" ++ index.repr ++ "]"

/-- The text of a location: `$` for the root, otherwise names set off by points and indices in
brackets, as in `voices[0].role`. -/
def Location.text : Location → String
  | [] => "$"
  | .member name :: rest => name ++ String.join (rest.map Segment.text)
  | segments => String.join (segments.map Segment.text)

/-- The value at a location. -/
def at? (root : Json) : Location → Option Json
  | [] => some root
  | .member name :: rest => (root.member? name).bind (·.at? rest)
  | .element index :: rest => (root.items?.bind (·[index]?)).bind (·.at? rest)

end Json

end SidTune
