import Restyle.Proofs.Neovim.Target
import Restyle.Proofs.Text.Bytes

/-!
# What Marks Select

The bytes between two marks, as a part of the text that the lines stand for.

A mark is a row, counted from one, and the column of a byte that it stands on. A range is two points
between bytes. What a selection means is said here in the text: it starts before a byte, brought back to
the end of its line, and it stops behind the character of a byte, or behind the newline of a line that is
not the last. `Spans` says this without points. That a range has the same bytes rests on two facts. The
order of points on lines is the order of their offsets in the text, so a range is empty exactly if its
bytes are. And reading between two points, which cuts the lines, is cutting the bytes of the text.

## Main definitions

* `lineStart`, `position`: The bytes before a line, and before a point.
* `StopsAt`: Where the text of a selection ends.
* `Spans`: The bytes between two marks.
* `enclosed`: The range between two marks.

## Theorems

* `position_le_position_iff`: The order of points is that of their offsets.
* `bytesBetween_eq`: Reading between two points cuts the bytes of the text.
* `stopsAt_iff`: A selection stops behind the character of its mark or where its line does.
* `bytesBetween_wholeLines`: Whole lines are selected without the implied newline.
* `enclosed_covers`: A range has the bytes between its marks, and there is none if there are no bytes.
-/

namespace Restyle.Neovim

open Lines

/-- The number of bytes before the line of a row. -/
def lineStart (lines : List Text) (row : Nat) : Nat :=
  (closed (lines.take row)).byteLength

/-- The number of bytes before a point. -/
def position (lines : List Text) (p : Point) : Nat :=
  lineStart lines p.row + p.column

/-- A mark at the column of a row takes the text up to a byte. On a character of the line that is the
    end of the character. Past the line it is the end of the newline, which the last line has not. -/
inductive StopsAt (lines : List Text) (row column : Nat) : Nat → Prop where
  | character {a b : Text} {c : Char} (line : lines[row]? = some (a ++ c :: b))
      (le_column : a.byteLength ≤ column) (column_lt : column < a.byteLength + c.utf8Size) :
      StopsAt lines row column (lineStart lines row + (a.byteLength + c.utf8Size))
  | newline {t : Text} (line : lines[row]? = some t) (past : t.byteLength ≤ column)
      (inner : row + 1 < lines.length) :
      StopsAt lines row column (lineStart lines row + t.byteLength + 1)
  | implied {t : Text} (line : lines[row]? = some t) (past : t.byteLength ≤ column)
      (last : row + 1 = lines.length) :
      StopsAt lines row column (lineStart lines row + t.byteLength)

/-- Marks are on rows, and their selection starts at one byte and stops before another. A start past its
    line is brought back to the end, and a column before the first counts as the first. -/
structure Spans (lines : List Text) (start stop : Int × Int) (first last : Nat) : Prop where
  rows : 1 ≤ start.1 ∧ start.1 ≤ stop.1 ∧ stop.1 ≤ lines.length
  starts : ∃ t, lines[(start.1 - 1).toNat]? = some t ∧
    first = lineStart lines (start.1 - 1).toNat + min start.2.toNat t.byteLength
  stops : StopsAt lines (stop.1 - 1).toNat stop.2.toNat last

/-- The range between two marks, with the lines that they are on. -/
def enclosed (lines : List Text) (start stop : Int × Int) : Option Range :=
  Selection.range? start stop (lineAt lines (start.1 - 1)) (lineAt lines (stop.1 - 1)) lines.length

/-! ### Cutting what is joined -/

section Joining

variable {α : Type} {mark : α} {parts : List (List α)} {row : Nat} {part : List α}

/-- Joined parts, cut in the middle of one. -/
theorem intercalate_cut (h : parts[row]? = some part) (column : Nat) :
    [mark].intercalate parts = (parts.take row).flatMap (· ++ [mark]) ++ part.take column ++
      [mark].intercalate (part.drop column :: parts.drop (row + 1)) := by
  rcases List.getElem?_eq_some_iff.mp h with ⟨hlt, hget⟩
  have hparts : parts = parts.take row ++ (part.take column ++ part.drop column) ::
      parts.drop (row + 1) := by
    rw [List.take_append_drop, ← hget, ← List.drop_eq_getElem_cons hlt, List.take_append_drop]
  conv_lhs => rw [hparts]
  rw [Text.intercalate_append _ (List.cons_ne_nil _ _), Text.intercalate_append_cons,
    List.append_assoc]

theorem length_cut {column : Nat} (hcolumn : column ≤ part.length) :
    ((parts.take row).flatMap (· ++ [mark]) ++ part.take column).length =
      ((parts.take row).flatMap (· ++ [mark])).length + column := by
  rw [List.length_append, List.length_take, Nat.min_eq_left hcolumn]

theorem take_intercalate (h : parts[row]? = some part) {column : Nat}
    (hcolumn : column ≤ part.length) :
    ([mark].intercalate parts).take (((parts.take row).flatMap (· ++ [mark])).length + column) =
      [mark].intercalate (parts.take row ++ [part.take column]) := by
  rw [intercalate_cut h column, List.take_left' (length_cut hcolumn),
    Text.intercalate_append _ (List.cons_ne_nil _ _), List.intercalate_singleton]

theorem drop_intercalate (h : parts[row]? = some part) {column : Nat}
    (hcolumn : column ≤ part.length) :
    ([mark].intercalate parts).drop (((parts.take row).flatMap (· ++ [mark])).length + column) =
      [mark].intercalate (part.drop column :: parts.drop (row + 1)) := by
  rw [intercalate_cut h column, List.drop_left' (length_cut hcolumn)]

end Joining

theorem toUtf8_closed (lines : List Text) :
    (closed lines).toUtf8 = (lines.map Text.toUtf8).flatMap (· ++ [10]) := by
  induction lines with
  | nil => rfl
  | cons line lines ih =>
      rw [closed_cons, Text.toUtf8_append, Text.toUtf8_append, ih]
      rfl

theorem lineStart_eq_length (lines : List Text) (row : Nat) :
    lineStart lines row = (((lines.map Text.toUtf8).take row).flatMap (· ++ [10])).length := by
  rw [lineStart, ← Text.length_toUtf8, toUtf8_closed, List.map_take]

/-! ### The order of points -/

theorem isOnLine_iff {lines : List Text} {p : Point} :
    isOnLine lines p ↔ ∃ t, lines[p.row]? = some t ∧ p.column ≤ t.byteLength := by
  unfold isOnLine
  cases hline : lines[p.row]? with
  | none => simp
  | some t => simp

theorem lineStart_succ {lines : List Text} {row : Nat} {t : Text} (h : lines[row]? = some t) :
    lineStart lines (row + 1) = lineStart lines row + t.byteLength + 1 := by
  rw [lineStart, List.take_add_one, h, Option.toList_some, closed_append, closed_singleton,
    Text.byteLength_append, Text.byteLength_append, Nat.add_assoc]
  rfl

theorem lineStart_mono (lines : List Text) {i j : Nat} (h : i ≤ j) :
    lineStart lines i ≤ lineStart lines j := by
  have htake : lines.take j = lines.take i ++ (lines.take j).drop i := by
    conv_lhs => rw [← List.take_append_drop i (lines.take j), List.take_take, Nat.min_eq_left h]
  rw [lineStart, lineStart, htake, closed_append, Text.byteLength_append]
  exact Nat.le_add_right _ _

theorem position_lt_of_row_lt {lines : List Text} {p q : Point} (hp : isOnLine lines p)
    (h : p.row < q.row) : position lines p < position lines q := by
  rcases isOnLine_iff.mp hp with ⟨t, hline, hcolumn⟩
  have hmono := lineStart_mono lines (Nat.succ_le_of_lt h)
  rw [lineStart_succ hline] at hmono
  unfold position
  omega

/-- The order of points on lines is that of their offsets. -/
theorem position_le_position_iff {lines : List Text} {p q : Point} (hp : isOnLine lines p)
    (hq : isOnLine lines q) : position lines p ≤ position lines q ↔ p ≤ q := by
  rw [Point.le_iff]
  rcases Nat.lt_trichotomy p.row q.row with hrow | hrow | hrow
  · have hlt := position_lt_of_row_lt hp hrow
    exact iff_of_true hlt.le (.inl hrow)
  · unfold position
    rw [hrow]
    omega
  · have hlt := position_lt_of_row_lt hq hrow
    exact iff_of_false (Nat.not_le.mpr hlt) (by omega)

/-- What stands before a point, cut at a point before it, has the same lines before. -/
theorem cut_before {octets : List (List UInt8)} {p q : Point} {a b : List UInt8}
    (hp : octets[p.row]? = some a) (hpcolumn : p.column ≤ a.length)
    (hq : octets[q.row]? = some b) (hqcolumn : q.column ≤ b.length) (hle : p ≤ q) :
    ∃ part, (octets.take q.row ++ [b.take q.column])[p.row]? = some part ∧
      p.column ≤ part.length ∧
      (octets.take q.row ++ [b.take q.column]).take p.row = octets.take p.row := by
  have hlength : (octets.take q.row).length = q.row := by
    have hlt := (List.getElem?_eq_some_iff.mp hq).1
    rw [List.length_take, Nat.min_eq_left hlt.le]
  have hrow : p.row ≤ q.row := by
    rw [Point.le_iff] at hle
    omega
  have htake : (octets.take q.row ++ [b.take q.column]).take p.row = octets.take p.row := by
    rw [List.take_append_of_le_length (by rw [hlength]; exact hrow), List.take_take,
      Nat.min_eq_left hrow]
  rcases (Point.le_iff _ _).mp hle with hlt | ⟨heq, hcolumn⟩
  · -- The line of the first point is a whole one.
    refine ⟨a, ?_, hpcolumn, htake⟩
    rw [List.getElem?_append_left (by rw [hlength]; exact hlt), List.getElem?_take_of_lt hlt, hp]
  · -- The line of both points is cut behind the first.
    refine ⟨b.take q.column, ?_, ?_, htake⟩
    · rw [heq, List.getElem?_append_right hlength.le, hlength, Nat.sub_self,
        List.getElem?_cons_zero]
    · rw [List.length_take, Nat.min_eq_left hqcolumn]
      exact hcolumn

/-- Reading between two points cuts the bytes of the text. -/
theorem bytesBetween_eq {lines : List Text} {r : Range} (hp : isOnLine lines r.start)
    (hq : isOnLine lines r.stop) (hle : r.start ≤ r.stop) :
    bytesBetween lines r =
      ((text lines).toUtf8.take (position lines r.stop)).drop (position lines r.start) := by
  rcases isOnLine_iff.mp hp with ⟨a, ha, hacolumn⟩
  rcases isOnLine_iff.mp hq with ⟨b, hb, hbcolumn⟩
  rw [← Text.length_toUtf8] at hacolumn hbcolumn
  have ha' : (lines.map Text.toUtf8)[r.start.row]? = some a.toUtf8 := by
    rw [List.getElem?_map, ha, Option.map_some]
  have hb' : (lines.map Text.toUtf8)[r.stop.row]? = some b.toUtf8 := by
    rw [List.getElem?_map, hb, Option.map_some]
  rcases cut_before ha' hacolumn hb' hbcolumn hle with ⟨part, hpart, hcolumn, htake⟩
  -- The newline at the very end comes behind both points.
  have hbefore : (text lines).toUtf8.take (position lines r.stop) =
      [10].intercalate ((lines.map Text.toUtf8).take r.stop.row ++ [b.toUtf8.take r.stop.column]) := by
    have hlength : position lines r.stop ≤ ([10].intercalate (lines.map Text.toUtf8)).length := by
      rw [intercalate_cut hb' r.stop.column, List.length_append, length_cut hbcolumn, position,
        lineStart_eq_length]
      exact Nat.le_add_right _ _
    rw [text, Text.toUtf8_append, Text.toUtf8_intercalate, Text.toUtf8_newline,
      List.take_append_of_le_length hlength, position, lineStart_eq_length,
      take_intercalate hb' hbcolumn]
  rw [hbefore, position, lineStart_eq_length, ← htake, drop_intercalate hpart hcolumn]
  simp only [bytesBetween, List.getD_eq_getElem?_getD, hb', hpart, Option.getD_some]

/-! ### The range between two marks -/

section Marks

variable {lines : List Text} {start stop : Int × Int}

/-- A selection stops behind the character of its mark or where its line does. -/
theorem stopsAt_iff {row column last : Nat} {t : Text} (h : lines[row]? = some t) :
    StopsAt lines row column last ↔
      last = if t.byteLength ≤ column ∧ row + 1 < lines.length then lineStart lines (row + 1)
        else lineStart lines row + t.charEnd column := by
  constructor
  · rintro (⟨hline, hle, hlt⟩ | ⟨hline, hpast, hinner⟩ | ⟨hline, hpast, hlast⟩)
    · cases h.symm.trans hline
      rw [if_neg (by rw [Text.byteLength_append, Text.byteLength]; omega),
        Text.charEnd_append_cons hle hlt]
    · cases h.symm.trans hline
      rw [if_pos ⟨hpast, hinner⟩, lineStart_succ h]
    · cases h.symm.trans hline
      rw [if_neg (by omega), Text.charEnd_of_byteLength_le hpast]
  · rintro rfl
    have hrow : row < lines.length := (List.getElem?_eq_some_iff.mp h).1
    by_cases hpast : t.byteLength ≤ column
    · by_cases hinner : row + 1 < lines.length
      · rw [if_pos ⟨hpast, hinner⟩, lineStart_succ h]
        exact .newline h hpast hinner
      · rw [if_neg (by omega), Text.charEnd_of_byteLength_le hpast]
        exact .implied h hpast (by omega)
    · -- The mark is on a byte of the line, which is one of a character.
      rcases Text.exists_char_of_lt (Nat.not_le.mp hpast) with ⟨a, c, b, rfl, hle, hlt⟩
      rw [if_neg (by omega), Text.charEnd_append_cons hle hlt]
      exact .character h hle hlt

/-- Marks on rows span the bytes between two points, which may be none. -/
theorem spans_points (hrows : 1 ≤ start.1 ∧ start.1 ≤ stop.1 ∧ stop.1 ≤ lines.length) :
    Spans lines start stop (position lines (startPoint lines start))
      (position lines (stopPoint lines stop)) := by
  have hstart : lines[(start.1 - 1).toNat]? = some (lineAt lines (start.1 - 1)) :=
    getElem?_row (by omega) (by omega)
  have hstop : lines[(stop.1 - 1).toNat]? = some (lineAt lines (stop.1 - 1)) :=
    getElem?_row (by omega) (by omega)
  refine ⟨hrows, ⟨_, hstart, rfl⟩, (stopsAt_iff hstop).mpr ?_⟩
  unfold stopPoint
  by_cases hbehind : (lineAt lines (stop.1 - 1)).byteLength ≤ stop.2.toNat ∧
      stop.1 < (lines.length : Int)
  · -- The selection takes a newline, so it stops where the next line starts.
    have hrow : (stop.1 - 1).toNat + 1 = stop.1.toNat := by omega
    rw [if_pos hbehind, hrow, if_pos ⟨hbehind.1, by omega⟩]
    rfl
  · rw [if_neg hbehind, if_neg (by omega)]
    rfl

/-- Two marks span the same bytes however that is seen. -/
theorem Spans.eq {first last first' last' : Nat} (h : Spans lines start stop first last)
    (h' : Spans lines start stop first' last') : first = first' ∧ last = last' := by
  rcases h.starts with ⟨t, ht, rfl⟩
  rcases h'.starts with ⟨t', ht', rfl⟩
  cases ht.symm.trans ht'
  have hrows := h.rows
  have hstop : lines[(stop.1 - 1).toNat]? = some (lineAt lines (stop.1 - 1)) :=
    getElem?_row (by omega) (by omega)
  exact ⟨rfl, ((stopsAt_iff hstop).mp h.stops).trans ((stopsAt_iff hstop).mp h'.stops).symm⟩

/-- A range has the bytes between its marks. -/
theorem enclosed_eq_some {r : Range} (h : enclosed lines start stop = some r) :
    r.start.order r.stop = .lt ∧ isOnLine lines r.start ∧ isOnLine lines r.stop ∧
      Spans lines start stop (position lines r.start) (position lines r.stop) := by
  rcases range?_eq_some_iff.mp h with ⟨hrows, hnonempty, rfl⟩
  refine ⟨(Range.isEmpty_eq_false_iff _).mp hnonempty, isOnLine_startPoint (by omega) (by omega),
    isOnLine_of_isPlace (isPlace_stopPoint (by omega) (by omega)), spans_points hrows⟩

/-- There is no range if the marks are not on rows or have no bytes between them. -/
theorem enclosed_eq_none_iff :
    enclosed lines start stop = none ↔
      ¬ (1 ≤ start.1 ∧ start.1 ≤ stop.1 ∧ stop.1 ≤ lines.length) ∨
        ∃ first last, Spans lines start stop first last ∧ last ≤ first := by
  by_cases hrows : 1 ≤ start.1 ∧ start.1 ≤ stop.1 ∧ stop.1 ≤ (lines.length : Int)
  · have hp : isOnLine lines (startPoint lines start) :=
      isOnLine_startPoint (by omega) (by omega)
    have hq : isOnLine lines (stopPoint lines stop) :=
      isOnLine_of_isPlace (isPlace_stopPoint (by omega) (by omega))
    have hspans := spans_points hrows
    rw [enclosed, range?_of_rows hrows]
    simp only [ite_eq_left_iff, reduceCtorEq, imp_false, Decidable.not_not, Range.isEmpty,
      decide_eq_true_eq, ← position_le_position_iff hq hp]
    constructor
    · intro hle
      exact .inr ⟨_, _, hspans, hle⟩
    · rintro (hout | ⟨first, last, hspans', hle⟩)
      · exact absurd hrows hout
      · rcases hspans.eq hspans' with ⟨rfl, rfl⟩
        exact hle
  · exact iff_of_true (range?_eq_none_of_not_rows hrows) (.inl hrows)

end Marks

/-! ### Whole lines -/

section WholeLines

variable {lines : List Text} {first last : Int}

/-- Reading from the start of a line leaves out the lines before it. -/
theorem bytesBetween_lineStart {i j column : Nat} (hle : i ≤ j) (hlt : j < lines.length) :
    bytesBetween lines ⟨⟨i, 0⟩, ⟨j, column⟩⟩ =
      [10].intercalate (((lines.map Text.toUtf8).take j).drop i ++ [lines[j].toUtf8.take column]) := by
  have hlength : ((lines.map Text.toUtf8).take j).length = j := by
    rw [List.length_take, List.length_map, Nat.min_eq_left hlt.le]
  have hline : (lines.map Text.toUtf8).getD j [] = lines[j].toUtf8 := by
    rw [List.getD_eq_getElem?_getD, List.getElem?_map, List.getElem?_eq_getElem hlt,
      Option.map_some, Option.getD_some]
  -- The first line is not cut, so it is one more of those behind.
  have hdrop : ∀ xs : List (List UInt8), i < xs.length →
      (xs.getD i []).drop 0 :: xs.drop (i + 1) = xs.drop i := by
    intro xs hi
    rw [List.drop_zero, List.getD_eq_getElem?_getD, List.getElem?_eq_getElem hi, Option.getD_some,
      List.drop_eq_getElem_cons hi]
  have hi : i < ((lines.map Text.toUtf8).take j ++ [lines[j].toUtf8.take column]).length := by
    rw [List.length_append, hlength, List.length_singleton]
    omega
  rw [bytesBetween]
  dsimp only
  rw [hline, hdrop _ hi, List.drop_append_of_le_length (by rwa [hlength])]

theorem rows_eq (hfirst : 1 ≤ first) (hle : first ≤ last) (hlast : last ≤ lines.length) :
    rows lines (first - 1) last = (lines.take last.toNat).drop (first - 1).toNat := by
  have hstart : row lines.length (first - 1) = (first - 1).toNat := by
    unfold row
    omega
  have hstop : row lines.length last = last.toNat := by
    unfold row
    omega
  rw [rows, hstart, hstop]

/-- Whole lines are selected with the newline behind them, unless that is the implied one. -/
theorem bytesBetween_wholeLines {r : Range} (hfirst : 1 ≤ first) (hle : first ≤ last)
    (hlast : last ≤ lines.length)
    (hlength : (lineAt lines (last - 1)).byteLength ≤ Document.lastColumn)
    (h : enclosed lines (first, 0) (last, Document.lastColumn) = some r) :
    bytesBetween lines r =
      Text.toUtf8 (if last < lines.length then closed (rows lines (first - 1) last)
        else ['\n'].intercalate (rows lines (first - 1) last)) := by
  have hpast : (lineAt lines (last - 1)).byteLength ≤ Document.lastColumn.toNat := by omega
  have hline : lines[(last - 1).toNat]? = some (lineAt lines (last - 1)) :=
    getElem?_row (by omega) hlast
  rcases range?_eq_some_iff.mp h with ⟨-, -, rfl⟩
  rw [rows_eq hfirst hle hlast, startPoint_zero, stopPoint]
  by_cases hinner : last < (lines.length : Int)
  · -- The range ends before the next line, of which it takes nothing.
    rw [if_pos ⟨hpast, hinner⟩, if_pos hinner, bytesBetween_lineStart (by omega) (by omega),
      List.take_zero, Text.intercalate_append _ (List.cons_ne_nil _ _), List.intercalate_singleton,
      List.append_nil, toUtf8_closed, List.map_drop, List.map_take]
  · -- The range ends where its last line does.
    have hrow : last.toNat = (last - 1).toNat + 1 := by omega
    have hlt : (last - 1).toNat < lines.length := by omega
    rw [List.getElem?_eq_getElem hlt, Option.some.injEq] at hline
    have hend : (lineAt lines (last - 1)).toUtf8.take
        ((lineAt lines (last - 1)).charEnd Document.lastColumn.toNat) =
          (lineAt lines (last - 1)).toUtf8 := by
      rw [Text.charEnd_of_byteLength_le hpast, ← Text.length_toUtf8, List.take_length]
    rw [if_neg (by omega), if_neg hinner, bytesBetween_lineStart (by omega) hlt,
      Text.toUtf8_intercalate, Text.toUtf8_newline, List.map_drop, List.map_take, hrow,
      List.take_add_one, hline, hend, List.getElem?_map, List.getElem?_eq_getElem hlt, hline,
      List.drop_append_of_le_length (by rw [List.length_take, List.length_map]; omega)]
    rfl

end WholeLines

/-- What two marks select. There is no range exactly if they are not on rows, in their order, or have no
    bytes between them. Otherwise the range starts before it ends, both ends are on lines, and its bytes
    are those of the text between the marks. For whole lines, marked by the last column that a line can
    have, these are the lines, with the newline behind them unless it is the implied one, and there are
    none only if the last line is meant and has no characters. -/
theorem enclosed_covers (lines : List Text) (start stop : Int × Int) :
    (enclosed lines start stop = none ↔
      ¬ (1 ≤ start.1 ∧ start.1 ≤ stop.1 ∧ stop.1 ≤ lines.length) ∨
        ∃ first last, Spans lines start stop first last ∧ last ≤ first) ∧
    (∀ r, enclosed lines start stop = some r →
      r.start.order r.stop = .lt ∧ isOnLine lines r.start ∧ isOnLine lines r.stop ∧
        ∃ first last, Spans lines start stop first last ∧
          position lines r.start = first ∧ position lines r.stop = last ∧
          bytesBetween lines r = ((text lines).toUtf8.take last).drop first) ∧
    (start.2 = 0 → stop.2 = Document.lastColumn →
      1 ≤ start.1 → start.1 ≤ stop.1 → stop.1 ≤ lines.length →
      (lineAt lines (stop.1 - 1)).byteLength ≤ Document.lastColumn →
        (enclosed lines start stop = none ↔
          start.1 = lines.length ∧ lineAt lines (stop.1 - 1) = []) ∧
        ∀ r, enclosed lines start stop = some r → bytesBetween lines r =
          Text.toUtf8 (if stop.1 < lines.length then closed (rows lines (start.1 - 1) stop.1)
            else ['\n'].intercalate (rows lines (start.1 - 1) stop.1))) := by
  refine ⟨enclosed_eq_none_iff, ?_, ?_⟩
  · intro r h
    rcases enclosed_eq_some h with ⟨horder, hp, hq, hspans⟩
    have hle := Range.le_of_isEmpty_eq_false ((Range.isEmpty_eq_false_iff r).mpr horder)
    exact ⟨horder, hp, hq, _, _, hspans, rfl, rfl, bytesBetween_eq hp hq hle⟩
  · rcases start with ⟨first, column⟩
    rcases stop with ⟨last, column'⟩
    rintro rfl rfl hfirst hle hlast hlength
    refine ⟨range?_wholeLines_eq_none_iff hfirst hle hlast, ?_⟩
    intro r h
    exact bytesBetween_wholeLines hfirst hle hlast hlength h

/-- Three lines, of which the one in the middle is empty. -/
def accented : List Text := ["aé".toList, [], "ß".toList]

/-- A mark inside a character selects it as a whole, and the last lines are selected without the implied
    newline. -/
theorem enclosed_covers_accented :
    (∃ first last, Spans accented (1, 1) (1, 2) first last ∧ first = 1 ∧ last = 3 ∧
      bytesBetween accented ⟨⟨0, 1⟩, ⟨0, 3⟩⟩ = Text.toUtf8 "é".toList) ∧
    bytesBetween accented ⟨⟨1, 0⟩, ⟨2, 2⟩⟩ = Text.toUtf8 "\nß".toList := by
  have hinside := (enclosed_covers accented (1, 1) (1, 2)).2.1 ⟨⟨0, 1⟩, ⟨0, 3⟩⟩ (by decide)
  have hwhole := (enclosed_covers accented (2, 0) (3, Document.lastColumn)).2.2 rfl rfl (by decide)
    (by decide) (by decide) (by decide)
  refine ⟨?_, hwhole.2 ⟨⟨1, 0⟩, ⟨2, 2⟩⟩ (by decide)⟩
  rcases hinside with ⟨-, -, -, first, last, hspans, rfl, rfl, hbytes⟩
  exact ⟨_, _, hspans, by decide, by decide, hbytes⟩

end Restyle.Neovim
