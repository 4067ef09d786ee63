import Restyle.Position
import Restyle.Text.Utf8

/-!
# Buffer Lines

The lines of a buffer, as an editor keeps them and hands them out.

The editor has no newlines in its memory. A buffer is a list of lines, and what separates them, and the
newline at the very end, is only implied. So a part of it is read by cutting the list at two places,
and replaced by joining what stands before the part, the replacement, and what stands behind it, and
taking the lines of that.

Columns are bytes, and nothing keeps them from lying inside a character. What is cut there is no text.

## Main definitions

* `Lines.text`: The text that lines stand for.
* `Lines.rows`: The lines between two row numbers, which may be counted from the end.
* `Lines.upTo`, `Lines.fromPoint`: The lines before a place and behind it.
* `Lines.between`, `Lines.replace`: Reading and replacing a part.
* `Lines.isPlace`: Whether a point lies on a line, between two characters.

## Theorems

* `text_lines`: The lines of a text stand for it and the implied newline.
* `text_replace`: A replacement leaves what stands before and behind the part.
-/

namespace Restyle.Neovim.Lines

/-- The text that lines stand for, with the implied newline at its end. -/
def text (lines : List Text) : Text :=
  ['\n'].intercalate lines ++ ['\n']

/-- The row that a row number means among so many. A negative one is counted from the place behind the
    last row, and what lies outside is brought inside. -/
def row (count : Nat) (n : Int) : Nat :=
  min (if n < 0 then n + count + 1 else n).toNat count

/-- The lines from a row up to another. -/
def rows (lines : List Text) (first last : Int) : List Text :=
  (lines.take (row lines.length last)).drop (row lines.length first)

/-- Whether a point lies on a line, between two characters or at an end. -/
def isPlace (lines : List Text) (p : Point) : Bool :=
  match lines[p.row]? with
  | some line => line.floorBoundary p.column == p.column
  | none => false

/-- Whether a point lies on a line, maybe inside a character. -/
def isOnLine (lines : List Text) (p : Point) : Bool :=
  match lines[p.row]? with
  | some line => decide (p.column ≤ line.byteLength)
  | none => false

/-- The lines before a place, with what stands before it on its own line. -/
def upTo (lines : List Text) (p : Point) : List Text :=
  lines.take p.row ++ [(lines.getD p.row []).takeBytes p.column]

/-- The lines behind a place, with what stands behind it on its own line. -/
def fromPoint (lines : List Text) (p : Point) : List Text :=
  (lines.getD p.row []).dropBytes p.column :: lines.drop (p.row + 1)

/-- The text between two places. -/
def between (lines : List Text) (r : Range) : Text :=
  ['\n'].intercalate (fromPoint (upTo lines r.stop) r.start)

/-- The lines after the text between two places was replaced. -/
def replace (lines : List Text) (r : Range) (t : Text) : List Text :=
  Text.lines
    (['\n'].intercalate (upTo lines r.start) ++ t ++ ['\n'].intercalate (fromPoint lines r.stop))

/-- The lines of a text stand for it and the implied newline. -/
theorem text_lines (t : Text) : text t.lines = t ++ ['\n'] := by
  rw [text, Text.lines, Text.intercalate_segments]

/-- A replacement leaves what stands before and behind the part. -/
theorem text_replace (lines : List Text) (r : Range) (t : Text) :
    text (replace lines r t) =
      ['\n'].intercalate (upTo lines r.start) ++ t ++ text (fromPoint lines r.stop) := by
  rw [replace, text_lines, text, List.append_assoc]

/-- The bytes between two points, which may lie inside a character. -/
def bytesBetween (lines : List Text) (r : Range) : List UInt8 :=
  let octets := lines.map Text.toUtf8
  let before := octets.take r.stop.row ++ [(octets.getD r.stop.row []).take r.stop.column]
  let part := (before.getD r.start.row []).drop r.start.column :: before.drop (r.start.row + 1)
  [10].intercalate part

end Restyle.Neovim.Lines
