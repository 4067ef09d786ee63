import Restyle.Json

/-!
# Printing JSON

The two ways a value is written: on one line for a process to read, and indented for a person.

A string is written raw except for what JSON does not allow raw: quotes, backslashes and control
characters. The control characters that have a letter are written with it, the others with four
lower-case digits. A double is written exactly, as an integer and a power of ten.

## Main definitions

* `Json.quote`: A string in quotes.
* `Json.compact`: A value on one line, without blanks.
* `Json.pretty`: A value with each item and member on a line of its own.
-/

namespace Restyle.Json

/-- A hexadecimal digit. -/
def hexDigit (n : Nat) : Char :=
  if n < 10 then Char.ofNat ('0'.toNat + n) else Char.ofNat ('a'.toNat + (n - 10))

/-- A character inside quotes. -/
def quoteChar (c : Char) : Text :=
  if c = '"' then ['\\', '"']
  else if c = '\\' then ['\\', '\\']
  else if 0x20 ≤ c.toNat then [c]
  else if c = '\x08' then ['\\', 'b']
  else if c = '\x0c' then ['\\', 'f']
  else if c = '\n' then ['\\', 'n']
  else if c = '\r' then ['\\', 'r']
  else if c = '\t' then ['\\', 't']
  else ['\\', 'u', '0', '0', hexDigit (c.toNat / 16), hexDigit (c.toNat % 16)]

/-- A string in quotes. -/
def quote (t : Text) : Text :=
  '"' :: t.flatMap quoteChar ++ ['"']

/-- Halve a number as long as it is even, at most so often. The halvings left over follow. -/
def halve : Nat → Nat → Nat × Nat
  | n, 0 => (n, 0)
  | n, k + 1 => if n % 2 = 0 then halve (n / 2) k else (n, k + 1)

/-- A double, as an integer and a power of ten. -/
def doubleText (bits : UInt64) : Text :=
  let sign : Text := if bits >>> 63 = 0 then [] else ['-']
  let field := (bits >>> 52 &&& 0x7ff).toNat
  let fraction := (bits &&& 0xfffffffffffff).toNat
  let significand := if field = 0 then fraction else fraction + 0x10000000000000
  let exponent : Int := (max field 1 : Nat) - 1075
  if 0 ≤ exponent then
    sign ++ (toString (significand <<< exponent.toNat)).toList ++ ['e', '0']
  else
    let (m, k) := halve significand exponent.natAbs
    sign ++ (toString (m * Nat.pow 5 k)).toList ++ 'e' :: '-' :: (toString k).toList

/-- A number. -/
def Number.text : Number → Text
  | .integer n => (toString n).toList
  | .double bits => doubleText bits

/-- Parts between brackets, with a comma between two of them. -/
def commaSeparated (opening closing : Char) (parts : List Text) : Text :=
  opening :: [','].intercalate parts ++ [closing]

mutual

/-- A value on one line, without blanks. -/
def compact : Json → Text
  | .null => ['n', 'u', 'l', 'l']
  | .bool true => ['t', 'r', 'u', 'e']
  | .bool false => ['f', 'a', 'l', 's', 'e']
  | .number n => n.text
  | .string t => quote t
  | .array items => commaSeparated '[' ']' (compactItems items)
  | .object members => commaSeparated '\x7b' '\x7d' (compactMembers members)

/-- The items of an array. -/
def compactItems : List Json → List Text
  | [] => []
  | j :: js => compact j :: compactItems js

/-- The members of an object. -/
def compactMembers : List (Text × Json) → List Text
  | [] => []
  | (name, j) :: js => (quote name ++ ':' :: compact j) :: compactMembers js

end

/-- A new line, indented by so many steps of two blanks. -/
def newline (indent : Nat) : Text :=
  '\n' :: List.replicate (2 * indent) ' '

/-- Parts between brackets, each on a line of its own. No parts need no line. -/
def lineSeparated (opening closing : Char) (indent : Nat) (parts : List Text) : Text :=
  if parts = [] then [opening, closing]
  else
    opening :: newline (indent + 1) ++ (',' :: newline (indent + 1)).intercalate parts ++
      newline indent ++ [closing]

mutual

/-- A value with each item and member on a line of its own, at an indentation. -/
def indented : Nat → Json → Text
  | indent, .array items => lineSeparated '[' ']' indent (indentedItems (indent + 1) items)
  | indent, .object members =>
    lineSeparated '\x7b' '\x7d' indent (indentedMembers (indent + 1) members)
  | _, .null => ['n', 'u', 'l', 'l']
  | _, .bool true => ['t', 'r', 'u', 'e']
  | _, .bool false => ['f', 'a', 'l', 's', 'e']
  | _, .number n => n.text
  | _, .string t => quote t

/-- The items of an array. -/
def indentedItems : Nat → List Json → List Text
  | _, [] => []
  | indent, j :: js => indented indent j :: indentedItems indent js

/-- The members of an object. -/
def indentedMembers : Nat → List (Text × Json) → List Text
  | _, [] => []
  | indent, (name, j) :: js =>
    (quote name ++ ':' :: ' ' :: indented indent j) :: indentedMembers indent js

end

/-- A value with each item and member on a line of its own. -/
def pretty (j : Json) : Text :=
  indented 0 j

end Restyle.Json
