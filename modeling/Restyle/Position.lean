import Restyle.Text

/-!
# Positions

Rows and byte columns, ranges between them, and the byte offsets they stand for.

A point may lie anywhere, also past the end of a row or of the text: editors hand over cursors and
selections that were taken before the text changed. Such a point stands for the offset it is clamped
to. The row is clamped first, then the column to the row's end, and last the offset is moved down to
the nearest character boundary, so that a point inside a character of several bytes stands for the
place before it.

## Main definitions

* `Point`: A row and a byte column, both from zero.
* `Range`: A start and an end, which is not part of it.
* `Text.lineSpans`: The byte offsets between which each line lies.
* `Text.offset`: The byte offset a point stands for.
* `Text.clamp`: The point of the text that stands for the same offset.

## Theorems

* `lineSpans_ne_nil`: A text has at least one line.
* `clampRow_lt`: A clamped row is one of the text.
-/

namespace Restyle

/-- A row and a byte column, both counted from zero. -/
structure Point where
  row : Nat := 0
  column : Nat := 0
  deriving DecidableEq, Repr, Inhabited

namespace Point

/-- The order of two points: by row, then by column. -/
def order (p q : Point) : Ordering :=
  (compare p.row q.row).then (compare p.column q.column)

/-- A point comes no later than another. -/
instance : LE Point := ⟨fun p q => p.order q ≠ .gt⟩

instance (p q : Point) : Decidable (p ≤ q) :=
  inferInstanceAs (Decidable (_ ≠ _))

end Point

/-- A span of text, from a point up to another that is not part of it. -/
structure Range where
  start : Point
  stop : Point
  deriving DecidableEq, Repr, Inhabited

/-- A range is empty if it does not start before it ends. -/
def Range.isEmpty (r : Range) : Bool :=
  decide (r.stop ≤ r.start)

/-- The byte offsets between which a line lies, its newline left out. -/
structure Span where
  start : Nat
  stop : Nat
  deriving DecidableEq, Repr

namespace Text

/-- The spans of lines that start at a byte offset. -/
def spansFrom : Nat → List Text → List Span
  | _, [] => []
  | start, line :: lines =>
    ⟨start, start + line.byteLength⟩ :: spansFrom (start + line.byteLength + 1) lines

/-- The lines of a text: one more than there are newlines. -/
def lines (t : Text) : List Text :=
  t.segments '\n'

/-- The span of each line. -/
def lineSpans (t : Text) : List Span :=
  spansFrom 0 t.lines

theorem lineSpans_ne_nil (t : Text) : t.lineSpans ≠ [] := by
  simp [lineSpans, lines, segments, spansFrom]

/-- The row of a point, or the last row for a point below it. -/
def clampRow (t : Text) (row : Nat) : Nat :=
  min row (t.lineSpans.length - 1)

theorem clampRow_lt (t : Text) (row : Nat) : t.clampRow row < t.lineSpans.length := by
  have := List.length_pos_iff.mpr t.lineSpans_ne_nil
  unfold clampRow
  omega

/-- The span of the row a point is clamped to. -/
def rowSpan (t : Text) (row : Nat) : Span :=
  t.lineSpans.get ⟨t.clampRow row, t.clampRow_lt row⟩

/-- The byte offset a point stands for. -/
def offset (t : Text) (p : Point) : Nat :=
  let span := t.rowSpan p.row
  t.floorBoundary (min (span.start + p.column) span.stop)

/-- The point of the text that stands for the same offset. -/
def clamp (t : Text) (p : Point) : Point :=
  ⟨t.clampRow p.row, t.offset p - (t.rowSpan p.row).start⟩

end Text

end Restyle
