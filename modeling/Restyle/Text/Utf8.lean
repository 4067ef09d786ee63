import Restyle.Text

/-!
# UTF-8

Bytes read as text, with the places where they are none.

Files and the output of a child process are bytes. A decoder that only says yes or no is too coarse
for the second kind: an error message is shown with a replacement character for whatever is not
UTF-8, and a JSON document may hold such bytes inside a string that nobody reads. So bytes are decoded
into pieces, each a character or a gap, where a gap is the longest run of bytes that begins a
well-formed character but does not finish it, or a single byte that begins none. No byte is lost.

The decoder looks at one byte at a time and remembers what it holds back. The range allowed for the
byte after the first is narrower than for the others where otherwise a surrogate, an overlong form or
a number past the last character would pass.

## Main definitions

* `Utf8.Piece`: A character or a gap.
* `Utf8.pieces`: The pieces of a list of bytes.
* `Utf8.decode?`: The text, if there is no gap.
* `Utf8.decodeLossy`: The text with a replacement character for each gap.
* `Text.toUtf8`: The UTF-8 form of a text.
-/

namespace Restyle

/-- The UTF-8 form of a text. -/
def Text.toUtf8 (t : Text) : List UInt8 :=
  t.flatMap String.utf8EncodeChar

namespace Utf8

/-- A decoded character, or bytes that are not UTF-8. -/
inductive Piece where
  | char (c : Char)
  | gap (bytes : List UInt8)
  deriving DecidableEq, Repr

/-- The number of bytes a piece stands for. -/
def Piece.size : Piece → Nat
  | .char c => c.utf8Size
  | .gap bytes => bytes.length

/-- The character of a piece, the replacement character for a gap. -/
def Piece.orReplacement : Piece → Char
  | .char c => c
  | .gap _ => '\uFFFD'

/-- The beginning of a character of more than one byte: the bytes held back, newest first, the bits
    they carry, how many bytes are still due and which the next one may be. -/
structure Pending where
  held : List UInt8
  bits : Nat
  due : Nat
  low : UInt8 := 0x80
  high : UInt8 := 0xBF

/-- What a byte means where no character has begun. -/
def begin (b : UInt8) : List Piece × Option Pending :=
  let n := b.toNat
  if n < 0x80 then ([.char (Char.ofNat n)], none)
  else if n < 0xC2 then ([.gap [b]], none)
  else if n < 0xE0 then ([], some { held := [b], bits := n - 0xC0, due := 1 })
  else if n = 0xE0 then ([], some { held := [b], bits := 0, due := 2, low := 0xA0 })
  else if n = 0xED then ([], some { held := [b], bits := 0xD, due := 2, high := 0x9F })
  else if n < 0xF0 then ([], some { held := [b], bits := n - 0xE0, due := 2 })
  else if n = 0xF0 then ([], some { held := [b], bits := 0, due := 3, low := 0x90 })
  else if n < 0xF4 then ([], some { held := [b], bits := n - 0xF0, due := 3 })
  else if n = 0xF4 then ([], some { held := [b], bits := 4, due := 3, high := 0x8F })
  else ([.gap [b]], none)

/-- What a byte means after the bytes held back. -/
def advance (p : Pending) (b : UInt8) : List Piece × Option Pending :=
  if p.low ≤ b ∧ b ≤ p.high then
    let bits := p.bits * 64 + (b.toNat - 0x80)
    if p.due ≤ 1 then ([.char (Char.ofNat bits)], none)
    else ([], some { held := b :: p.held, bits, due := p.due - 1 })
  else
    let (out, next) := begin b
    (.gap p.held.reverse :: out, next)

/-- The pieces of the bytes that follow those held back. -/
def piecesAfter : Option Pending → List UInt8 → List Piece
  | none, [] => []
  | some p, [] => [.gap p.held.reverse]
  | none, b :: bytes =>
    let (out, next) := begin b
    out ++ piecesAfter next bytes
  | some p, b :: bytes =>
    let (out, next) := advance p b
    out ++ piecesAfter next bytes

/-- The pieces of a list of bytes, in order. -/
def pieces (bytes : List UInt8) : List Piece :=
  piecesAfter none bytes

/-- The text that bytes are the UTF-8 form of, if they are one. -/
def decode? (bytes : List UInt8) : Option Text :=
  (pieces bytes).mapM fun
    | .char c => some c
    | .gap _ => none

/-- The text of bytes, with one replacement character for each gap. -/
def decodeLossy (bytes : List UInt8) : Text :=
  (pieces bytes).map Piece.orReplacement

end Utf8

end Restyle
