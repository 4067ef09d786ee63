import Mathlib.Data.List.Basic
import Restyle.Proofs.Position
import Restyle.Proofs.Text.Spans

/-!
# Clamped Points

That a point which was brought into the text stays where it is.

A point is clamped in three steps, its row, its column and then the byte that it lies in, and each step
could undo what an earlier one has reached. That it does not has one reason: a line starts and ends at a
boundary. The search for a boundary goes down from a byte of the line, so it ends in the line at the
latest where that starts, and the column that is left is one of the same row.

So a row is taken apart once, into the lines before it, its own line and the lines behind. Then the
offset that a point stands for is found in its own line, behind all that comes before, and what the point
is clamped to is that line's boundary. A point and what it is clamped to stand for the same offset, so
nothing that goes by offsets can tell them apart.

## Theorems

* `floorBoundary_le`, `le_floorBoundary`: What is found is the greatest boundary that is not above.
* `floorBoundary_append`, `floorBoundary_append_min`: The boundaries of a text are those of its parts.
* `exists_row`: A row that points are clamped to has a line.
* `offset_of_lines`, `clamp_of_lines`: Offset and clamped point, from the boundaries of one line.
* `offset_mem_rowSpan`: A point stands for an offset on its row.
* `offset_lt_of_clampRow_lt`: A point on an upper row stands for an earlier offset.
* `offset_clamp`: Clamping does not change what a point stands for.
* `clamp_clamp`: A clamped point is not clamped any further.
-/

namespace Restyle.Text

theorem floorBoundary_le (t : Text) (n : Nat) : t.floorBoundary n ≤ n := by
  induction t generalizing n with
  | nil => exact Nat.zero_le n
  | cons c t ih =>
      rw [floorBoundary]
      split
      · exact Nat.zero_le n
      · have hrest := ih (n - c.utf8Size)
        omega

/-- No boundary that is not above lies between the one that is found and where the search began. -/
theorem le_floorBoundary {t : Text} {k n : Nat} (hk : t.IsBoundary k) (hle : k ≤ n) :
    k ≤ t.floorBoundary n := by
  rcases exists_halves hk with ⟨a, b, rfl, rfl⟩
  clear hk
  induction a generalizing n with
  | nil => exact Nat.zero_le _
  | cons c a ih =>
      rw [byteLength] at hle ⊢
      rw [List.cons_append, floorBoundary, if_neg (by omega)]
      have hrest := ih (n := n - c.utf8Size) (by omega)
      omega

/-- Behind a part the boundaries are those of the rest. -/
theorem floorBoundary_append (a b : Text) (n : Nat) :
    floorBoundary (a ++ b) (byteLength a + n) = byteLength a + floorBoundary b n := by
  induction a with
  | nil => rw [byteLength, Nat.zero_add, Nat.zero_add, List.nil_append]
  | cons c a ih =>
      have hrest : c.utf8Size + byteLength a + n - c.utf8Size = byteLength a + n := by omega
      rw [byteLength, List.cons_append, floorBoundary, if_neg (by omega), hrest, ih, Nat.add_assoc]

/-- Up to the end of a part the boundaries are those of the part. -/
theorem floorBoundary_append_min (a b : Text) (n : Nat) :
    floorBoundary (a ++ b) (min n (byteLength a)) = floorBoundary a n := by
  induction a generalizing n with
  | nil =>
      rw [byteLength, Nat.min_zero]
      exact isBoundary_zero _
  | cons c a ih =>
      rw [List.cons_append, floorBoundary, floorBoundary, byteLength]
      by_cases hn : n < c.utf8Size
      · rw [if_pos hn, if_pos (by omega)]
      · have hrest : min n (c.utf8Size + byteLength a) - c.utf8Size =
            min (n - c.utf8Size) (byteLength a) := by omega
        rw [if_neg hn, if_neg (by omega), hrest, ih]

theorem length_lineSpans (t : Text) : t.lineSpans.length = t.lines.length :=
  length_spansFrom 0 t.lines

/-- A row that points are clamped to has a line. -/
theorem exists_row (t : Text) (row : Nat) :
    ∃ xs line ys, t.lines = xs ++ line :: ys ∧ t.clampRow row = xs.length := by
  have hlt : t.clampRow row < t.lines.length := t.length_lineSpans ▸ t.clampRow_lt row
  refine ⟨t.lines.take (t.clampRow row), t.lines[t.clampRow row],
    t.lines.drop (t.clampRow row + 1), ?_, ?_⟩
  · rw [← List.drop_eq_getElem_cons hlt, List.take_append_drop]
  · rw [List.length_take, Nat.min_eq_left (Nat.le_of_lt hlt)]

section Row

variable {t : Text} {xs : List Text} {line : Text} {ys : List Text}
  (h : t.lines = xs ++ line :: ys)

include h

/-- Around a line stand the lines before it, each with its newline, and what comes behind. -/
theorem eq_of_lines :
    t = ended xs ++ (line ++ ['\n'].intercalate ([] :: ys)) := by
  have hjoin : ['\n'].intercalate t.lines = t := intercalate_segments '\n' t
  rw [← intercalate_append_cons, List.append_nil,
    ← intercalate_append_ended _ (List.cons_ne_nil _ _), ← h, hjoin]

theorem rowSpan_of_lines {row : Nat} (hrow : t.clampRow row = xs.length) :
    t.rowSpan row = ⟨(ended xs).byteLength, (ended xs).byteLength + line.byteLength⟩ := by
  have hspan := getElem?_spansFrom 0 xs line ys
  rw [← h, Nat.zero_add, ← hrow] at hspan
  exact (List.getElem?_eq_some_iff.mp hspan).2

/-- A point stands for a boundary of its line, behind all that comes before the line. -/
theorem offset_of_lines {p : Point} (hrow : t.clampRow p.row = xs.length) :
    t.offset p = (ended xs).byteLength + line.floorBoundary p.column := by
  -- The column is cut off at the end of the line, so the search takes place in the line.
  have hmin := Nat.add_min_add_left (ended xs).byteLength p.column line.byteLength
  rw [offset, rowSpan_of_lines h hrow]
  simp only []
  rw [hmin]
  conv_lhs => rw [eq_of_lines h]
  rw [floorBoundary_append, floorBoundary_append_min]

/-- A point is clamped to a boundary of its line. -/
theorem clamp_of_lines {p : Point} (hrow : t.clampRow p.row = xs.length) :
    t.clamp p = ⟨xs.length, line.floorBoundary p.column⟩ := by
  rw [clamp, offset_of_lines h hrow, rowSpan_of_lines h hrow, hrow, Nat.add_sub_cancel_left]

end Row

/-- Of two rows the upper one ends before the lower one starts. -/
theorem rowSpan_stop_lt {t : Text} {row row' : Nat} (h : t.clampRow row < t.clampRow row') :
    (t.rowSpan row).stop < (t.rowSpan row').start :=
  List.pairwise_iff_getElem.mp (pairwise_spansFrom 0 t.lines) _ _ (t.clampRow_lt row)
    (t.clampRow_lt row') h

/-- A point stands for an offset on the row that it is clamped to. -/
theorem offset_mem_rowSpan (t : Text) (p : Point) :
    (t.rowSpan p.row).start ≤ t.offset p ∧ t.offset p ≤ (t.rowSpan p.row).stop := by
  rcases t.exists_row p.row with ⟨xs, line, ys, hlines, hrow⟩
  rw [offset_of_lines hlines hrow, rowSpan_of_lines hlines hrow]
  exact ⟨Nat.le_add_right _ _, Nat.add_le_add_left (isBoundary_floorBoundary line p.column).le _⟩

/-- A point on an upper row stands for an offset before those of a lower row. -/
theorem offset_lt_of_clampRow_lt {t : Text} {p q : Point}
    (h : t.clampRow p.row < t.clampRow q.row) : t.offset p < t.offset q :=
  calc t.offset p ≤ (t.rowSpan p.row).stop := (t.offset_mem_rowSpan p).2
    _ < (t.rowSpan q.row).start := rowSpan_stop_lt h
    _ ≤ t.offset q := (t.offset_mem_rowSpan q).1

theorem clampRow_clampRow (t : Text) (row : Nat) : t.clampRow (t.clampRow row) = t.clampRow row := by
  unfold clampRow
  omega

/-- Clamping does not change what a point stands for. -/
theorem offset_clamp (t : Text) (p : Point) : t.offset (t.clamp p) = t.offset p := by
  rcases t.exists_row p.row with ⟨xs, line, ys, hlines, hrow⟩
  have hclamped : t.clampRow xs.length = xs.length := by rw [← hrow, clampRow_clampRow]
  -- The column that is left is a boundary of the line already.
  rw [clamp_of_lines hlines hrow, offset_of_lines hlines hclamped, offset_of_lines hlines hrow,
    isBoundary_floorBoundary line p.column]

/-- A clamped point is not clamped any further. -/
theorem clamp_clamp (t : Text) (p : Point) : t.clamp (t.clamp p) = t.clamp p := by
  rcases t.exists_row p.row with ⟨xs, line, ys, hlines, hrow⟩
  have hclamped : t.clampRow xs.length = xs.length := by rw [← hrow, clampRow_clampRow]
  rw [clamp_of_lines hlines hrow, clamp_of_lines hlines hclamped,
    isBoundary_floorBoundary line p.column]

end Restyle.Text
