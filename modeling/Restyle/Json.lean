import Restyle.Text

/-!
# JSON Values

The values of JSON documents, and looking up the members of an object.

An integer that fits 64 bits, signed or not, is kept exactly; every other number is a double, kept as
its bits, so that two values are equal when nothing can tell them apart. The members of an object
have distinct names and keep the order in which their names first appeared. Of two members with one
name the last counts.

## Main definitions

* `Json.Number`: An integer or a double.
* `Json`: A value.
* `Json.get?`: A member of an object.
* `Json.insert`: A list of members with one added or replaced.
-/

namespace Restyle

/-- A number that JSON can hold. -/
inductive Json.Number where
  | integer (n : Int)
  | double (bits : UInt64)
  deriving DecidableEq, Repr

/-- A JSON value. -/
inductive Json where
  | null
  | bool (b : Bool)
  | number (n : Json.Number)
  | string (t : Text)
  | array (items : List Json)
  | object (members : List (Text × Json))
  deriving BEq, Repr, Inhabited

namespace Json

/-- A member in a list of members. -/
def lookup? (name : Text) : List (Text × Json) → Option Json
  | [] => none
  | (n, v) :: rest => if n = name then some v else lookup? name rest

/-- A list of members with one more, which takes the place of the one that had its name. -/
def insert (name : Text) (value : Json) : List (Text × Json) → List (Text × Json)
  | [] => [(name, value)]
  | (n, v) :: rest => if n = name then (n, value) :: rest else (n, v) :: insert name value rest

/-- A member of an object; other values have none. -/
def get? (name : Text) : Json → Option Json
  | .object members => lookup? name members
  | _ => none

/-- The text of a string. -/
def text? : Json → Option Text
  | .string t => some t
  | _ => none

end Json

end Restyle
