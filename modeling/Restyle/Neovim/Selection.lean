import Restyle.Position

/-!
# Selections in Neovim

From the marks of a selection to a range, and how text is fitted into it.

The editor's marks count rows from one, include the character they stand on, and lie at a huge column
when whole lines are selected. A range starts at a character and ends before one. A selection that goes
past the end of a line takes the newline with it, except on the last line: the buffer is a list of
lines, and the newline at its very end is only implied.

This is also why a replacement may have to give one up. A fixer ends its text with a newline. Put in
place of a fragment that reaches the end of the buffer and had none, it would leave an empty line.

## Main definitions

* `Selection.range?`: The range between two marks.
* `Selection.reachesEnd`: Whether a range ends where the buffer does.
* `Selection.fit`: A replacement as it is written.
-/

namespace Restyle.Neovim.Selection

/-- The range between two marks, each a row, counted from one, and a byte column. The lines the marks
    are on and the number of all lines are given. -/
def range? (start stop : Int × Int) (startLine stopLine : Text) (lineCount : Int) : Option Range :=
  if start.1 < 1 ∨ stop.1 < start.1 ∨ lineCount < stop.1 then none
  else
    let first : Point := ⟨(start.1 - 1).toNat, min start.2.toNat startLine.byteLength⟩
    let last : Point :=
      if stopLine.byteLength ≤ stop.2.toNat ∧ stop.1 < lineCount then ⟨stop.1.toNat, 0⟩
      else ⟨(stop.1 - 1).toNat, stopLine.charEnd stop.2.toNat⟩
    let range : Range := ⟨first, last⟩
    if range.isEmpty then none else some range

/-- Whether a range ends at the end of the last line. -/
def reachesEnd (r : Range) (lineCount : Int) (lastLine : Text) : Bool :=
  decide (lineCount ≤ r.stop.row + 1 ∧ lastLine.byteLength ≤ r.stop.column)

/-- A replacement as it is written in place of a text: without the newline at its end, if the text had
    none and stands before the implied one. -/
def fit (replacement source : Text) (atEnd : Bool) : Text :=
  if atEnd && !source.endsInNewline then replacement.withoutFinalNewline else replacement

end Restyle.Neovim.Selection
