import Restyle.Text

/-!
# Blank Characters

The characters that have the Unicode property White_Space, and trimming by it.

Messages that a child process leaves on its error stream are trimmed before they are shown. The class
is the Unicode one and not the ASCII one: a no-break space or an ideographic space at either end goes
as well, while a zero-width space, which does not have the property, stays.

## Main definitions

* `isBlank`: The property White_Space.
* `Text.trim`: A text less the blanks at both ends.
-/

namespace Restyle

/-- The characters with the Unicode property White_Space. -/
def isBlank (c : Char) : Bool :=
  let n := c.toNat
  (0x9 ≤ n && n ≤ 0xD) || n == 0x20 || n == 0x85 || n == 0xA0 || n == 0x1680 ||
    (0x2000 ≤ n && n ≤ 0x200A) || n == 0x2028 || n == 0x2029 || n == 0x202F || n == 0x205F ||
    n == 0x3000

namespace Text

/-- A text less the blanks at its beginning. -/
def trimStart (t : Text) : Text :=
  t.dropWhile isBlank

/-- A text less the blanks at both ends. -/
def trim (t : Text) : Text :=
  (trimStart (trimStart t).reverse).reverse

end Text

end Restyle
