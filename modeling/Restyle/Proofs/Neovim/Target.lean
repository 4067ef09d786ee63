import Restyle.Proofs.Neovim.Agreement

/-!
# What a Run Is For

The part of the lines that a run reads and writes.

A run for a command with a range of lines is for the range between two marks: those of the editor if they
are on the lines of the command, and otherwise those around the lines. It is for all lines if there is no
such range. The range may be empty, as for marks that enclose nothing, and for a last line without
characters, since the newline behind it is only implied. Or it may start inside a character, because the
editor keeps its marks as columns, and then there is no text to be read. `target` says which part it is,
from the lines and the marks alone.

## Main definitions

* `startPoint`, `stopPoint`: The points between which a selection lies.
* `marked`: The range between the marks for a command.
* `Covers`: A range is on certain lines.
* `target`: The part that a run is for.
* `IsPart`: A range between two places with text in it.
* `part`, `withPart`: The text of a part, and the lines after it was replaced.

## Theorems

* `range?_eq_some_iff`: Marks on rows enclose the range between the two points.
* `covers_marked`: The range for a command is on its lines.
* `target_elsewhere_eq_none_iff`: Away from the marks there is a part, unless an empty line is the last.
* `isPart_of_target`: The part that a run is for lies between two places and holds text.
* `IsPart.put_eq_self_iff`: Writing between two places changes the lines if the text differs.
-/

namespace Restyle.Neovim

open Lines

/-- Where a selection starts: at its mark, or at the end of the line for a mark behind it. -/
def startPoint (lines : List Text) (start : Int × Int) : Point :=
  ⟨(start.1 - 1).toNat, min start.2.toNat (lineAt lines (start.1 - 1)).byteLength⟩

/-- Where a selection stops: behind the character of its mark, or before the next line for a mark behind
    a line that has one. -/
def stopPoint (lines : List Text) (stop : Int × Int) : Point :=
  if (lineAt lines (stop.1 - 1)).byteLength ≤ stop.2.toNat ∧ stop.1 < lines.length then
    ⟨stop.1.toNat, 0⟩
  else ⟨(stop.1 - 1).toNat, (lineAt lines (stop.1 - 1)).charEnd stop.2.toNat⟩

/-- The range between the marks for a command, which are those of the editor if they are on its
    lines. -/
def marked (lines : List Text) (commandRange : Option (Int × Int))
    (marks : (Int × Int) × (Int × Int)) : Option Range :=
  match commandRange with
  | none => none
  | some (first, last) =>
    let (start, stop) := Document.selectionMarks first last marks.1 marks.2
    Selection.range? start stop (lineAt lines (start.1 - 1)) (lineAt lines (stop.1 - 1)) lines.length

/-- A range starts on the first of certain lines, counted from one, and ends on the last or before the
    line behind it. The end is a place, but the start may be inside a character. -/
structure Covers (lines : List Text) (first last : Int) (r : Range) : Prop where
  start_row : (r.start.row : Int) + 1 = first
  stop_row : (r.stop.row : Int) + 1 = last ∨ (r.stop.row : Int) = last ∧ r.stop.column = 0
  start_onLine : isOnLine lines r.start
  stop_place : isPlace lines r.stop
  nonempty : r.isEmpty = false

/-- The part of the lines that a run is for, or none for all of them. -/
def target (lines : List Text) (selectionOnly : Bool) (commandRange : Option (Int × Int))
    (marks : (Int × Int) × (Int × Int)) : Option Range :=
  if selectionOnly then (marked lines commandRange marks).filter (isPlace lines ·.start) else none

/-- A range between two places, with text in it. -/
structure IsPart (lines : List Text) (r : Range) : Prop where
  start_place : isPlace lines r.start
  stop_place : isPlace lines r.stop
  nonempty : r.isEmpty = false

/-- The text of a part, or the whole text. -/
def part (lines : List Text) : Option Range → Text
  | none => text lines
  | some r => between lines r

/-- The lines after a text was written to a part, or as a whole. -/
def withPart (lines : List Text) (place : Option Range) (t : Text) : List Text :=
  match place with
  | none => Document.storedLines t
  | some r => put lines r (fitted lines r t).lines

section Marks

theorem getElem?_row {lines : List Text} {row : Int} (hfirst : 1 ≤ row)
    (hlast : row ≤ lines.length) :
    lines[(row - 1).toNat]? = some (lineAt lines (row - 1)) := by
  -- A row that is counted from one is turned into an index.
  have hlt : (row - 1).toNat < lines.length := by omega
  have hline := lineAt_natCast hlt
  rw [Int.toNat_of_nonneg (by omega)] at hline
  rw [List.getElem?_eq_getElem hlt, hline]

theorem isPlace_of_isOnLine {lines : List Text} {p : Point} (h : isOnLine lines p)
    (hcolumn : p.column = 0) : isPlace lines p := by
  unfold isOnLine at h
  unfold isPlace
  cases hline : lines[p.row]? with
  | none =>
      rw [hline] at h
      cases h
  | some line =>
      rw [hcolumn]
      exact beq_iff_eq.mpr (Text.isBoundary_zero line)

/-- A range starts at its first mark, or at the end of the line for a mark behind it. -/
theorem range?_start {start stop : Int × Int} {startLine stopLine : Text} {count : Int} {r : Range}
    (h : Selection.range? start stop startLine stopLine count = some r) :
    r.start = ⟨(start.1 - 1).toNat, min start.2.toNat startLine.byteLength⟩ := by
  simp only [Selection.range?, Option.ite_none_left_eq_some, Option.some.injEq] at h
  rw [← h.2.2]

/-- Marks on rows enclose the range between two points, if it is not empty. -/
theorem range?_of_rows {lines : List Text} {start stop : Int × Int}
    (hrows : 1 ≤ start.1 ∧ start.1 ≤ stop.1 ∧ stop.1 ≤ lines.length) :
    Selection.range? start stop (lineAt lines (start.1 - 1)) (lineAt lines (stop.1 - 1))
        lines.length =
      if Range.isEmpty ⟨startPoint lines start, stopPoint lines stop⟩ then none
      else some ⟨startPoint lines start, stopPoint lines stop⟩ := by
  rw [Selection.range?, if_neg (by omega)]
  rfl

/-- From its first column a line is selected from its start. -/
theorem startPoint_zero (lines : List Text) (first : Int) :
    startPoint lines (first, 0) = ⟨(first - 1).toNat, 0⟩ :=
  congrArg (Point.mk _) (Nat.zero_min _)

/-- Other marks enclose no range. -/
theorem range?_eq_none_of_not_rows {start stop : Int × Int} {startLine stopLine : Text} {count : Int}
    (hrows : ¬ (1 ≤ start.1 ∧ start.1 ≤ stop.1 ∧ stop.1 ≤ count)) :
    Selection.range? start stop startLine stopLine count = none := by
  rw [Selection.range?, if_pos (by omega)]

theorem range?_eq_some_iff {lines : List Text} {start stop : Int × Int} {r : Range} :
    Selection.range? start stop (lineAt lines (start.1 - 1)) (lineAt lines (stop.1 - 1))
        lines.length = some r ↔
      (1 ≤ start.1 ∧ start.1 ≤ stop.1 ∧ stop.1 ≤ lines.length) ∧ r.isEmpty = false ∧
        r = ⟨startPoint lines start, stopPoint lines stop⟩ := by
  by_cases hrows : 1 ≤ start.1 ∧ start.1 ≤ stop.1 ∧ stop.1 ≤ (lines.length : Int)
  · rw [range?_of_rows hrows, Option.ite_none_left_eq_some, Option.some.injEq, Bool.not_eq_true]
    constructor
    · rintro ⟨hnonempty, rfl⟩
      exact ⟨hrows, hnonempty, rfl⟩
    · rintro ⟨-, hnonempty, rfl⟩
      exact ⟨hnonempty, rfl⟩
  · rw [range?_eq_none_of_not_rows hrows]
    exact iff_of_false (Option.some_ne_none r).symm fun h => hrows h.1

/-- The start is brought onto its line, but not to a place. -/
theorem isOnLine_startPoint {lines : List Text} {start : Int × Int} (hfirst : 1 ≤ start.1)
    (hlast : start.1 ≤ lines.length) : isOnLine lines (startPoint lines start) := by
  unfold isOnLine startPoint
  rw [getElem?_row hfirst hlast]
  exact decide_eq_true (Nat.min_le_right _ _)

theorem isPlace_stopPoint {lines : List Text} {stop : Int × Int} (hfirst : 1 ≤ stop.1)
    (hlast : stop.1 ≤ lines.length) : isPlace lines (stopPoint lines stop) := by
  unfold isPlace stopPoint
  by_cases hbehind : (lineAt lines (stop.1 - 1)).byteLength ≤ stop.2.toNat ∧
      stop.1 < (lines.length : Int)
  · have hlt : stop.1.toNat < lines.length := by omega
    rw [if_pos hbehind, List.getElem?_eq_getElem hlt]
    exact beq_iff_eq.mpr (Text.isBoundary_zero _)
  · rw [if_neg hbehind, getElem?_row hfirst hlast]
    exact beq_iff_eq.mpr (Text.isBoundary_charEnd _ _)

/-- The range between two marks is on their rows. -/
theorem covers_range? {lines : List Text} {start stop : Int × Int} {r : Range}
    (h : Selection.range? start stop (lineAt lines (start.1 - 1)) (lineAt lines (stop.1 - 1))
      lines.length = some r) : Covers lines start.1 stop.1 r := by
  rcases range?_eq_some_iff.mp h with ⟨hrows, hnonempty, rfl⟩
  refine ⟨?_, ?_, isOnLine_startPoint (by omega) (by omega),
    isPlace_stopPoint (by omega) (by omega), hnonempty⟩
  · change ((start.1 - 1).toNat : Int) + 1 = _
    omega
  · dsimp only [stopPoint]
    split_ifs
    · -- The newline of the last line is taken, so the range ends before the next line.
      refine .inr ⟨?_, rfl⟩
      change (stop.1.toNat : Int) = _
      omega
    · refine .inl ?_
      change ((stop.1 - 1).toNat : Int) + 1 = _
      omega

variable {lines : List Text} {first last : Int} {marks : (Int × Int) × (Int × Int)} {r : Range}

/-- The range for a command is on its lines. -/
theorem covers_marked (h : marked lines (some (first, last)) marks = some r) :
    Covers lines first last r := by
  simp only [marked] at h
  have hcovers := covers_range? h
  -- Either the marks are on the lines of the command, or they are not used.
  unfold Document.selectionMarks at hcovers
  by_cases hrows : marks.1.1 = first ∧ marks.2.1 = last
  · rwa [if_pos hrows, hrows.1, hrows.2] at hcovers
  · rwa [if_neg hrows] at hcovers

theorem covers_of_marked {commandRange : Option (Int × Int)}
    (h : marked lines commandRange marks = some r) :
    ∃ first last, commandRange = some (first, last) ∧ Covers lines first last r := by
  cases commandRange with
  | none => cases h
  | some range => exact ⟨range.1, range.2, rfl, covers_marked h⟩

theorem charEnd_eq_zero_iff {t : Text} {n : Nat} : t.charEnd n = 0 ↔ t = [] := by
  cases t with
  | nil => exact iff_of_true rfl rfl
  | cons c t =>
      -- The end of a character lies behind it, and a character has a byte.
      have hpos := c.utf8Size_pos
      refine iff_of_false ?_ (List.cons_ne_nil _ _)
      unfold Text.charEnd
      split <;> omega

/-- Whole lines are a range, unless they are the last line alone and that has no characters. -/
theorem range?_wholeLines_eq_none_iff (hfirst : 1 ≤ first) (hle : first ≤ last)
    (hlast : last ≤ lines.length) :
    Selection.range? (first, 0) (last, Document.lastColumn) (lineAt lines (first - 1))
        (lineAt lines (last - 1)) lines.length = none ↔
      first = lines.length ∧ lineAt lines (last - 1) = [] := by
  rw [range?_of_rows ⟨hfirst, hle, hlast⟩, startPoint_zero, stopPoint]
  simp only [ite_eq_left_iff, reduceCtorEq, imp_false, Decidable.not_not, Range.isEmpty,
    decide_eq_true_eq, Point.le_iff]
  by_cases hbehind : (lineAt lines (last - 1)).byteLength ≤ Document.lastColumn.toNat ∧
      last < (lines.length : Int)
  · -- The range ends before the next line, so it holds at least a newline.
    rw [if_pos hbehind]
    dsimp only
    omega
  · -- The range ends where its last line does, which may be where it starts.
    rw [if_neg hbehind]
    simp only [Nat.le_zero, charEnd_eq_zero_iff]
    constructor
    · rintro (hrow | ⟨hrow, hnil⟩)
      · omega
      · rw [hnil, not_and] at hbehind
        have hend := hbehind (Nat.zero_le _)
        exact ⟨by omega, hnil⟩
    · rintro ⟨hrow, hnil⟩
      exact .inr ⟨by omega, hnil⟩

/-- Away from the marks of the editor a run is for the lines of its command, unless that is the last
    line alone and it has no characters. -/
theorem target_elsewhere_eq_none_iff (hfirst : 1 ≤ first) (hle : first ≤ last)
    (hlast : last ≤ lines.length) (hmarks : ¬ (marks.1.1 = first ∧ marks.2.1 = last)) :
    target lines true (some (first, last)) marks = none ↔
      first = lines.length ∧ lineAt lines (last - 1) = [] := by
  have hmarked : marked lines (some (first, last)) marks =
      Selection.range? (first, 0) (last, Document.lastColumn) (lineAt lines (first - 1))
        (lineAt lines (last - 1)) lines.length := by
    simp only [marked, Document.selectionMarks, if_neg hmarks]
  rw [target, if_pos rfl, ← range?_wholeLines_eq_none_iff hfirst hle hlast, ← hmarked]
  cases hrange : marked lines (some (first, last)) marks with
  | none => rfl
  | some r =>
      -- The range starts where its first line does, so there is text to be read.
      have hcolumn : r.start.column = 0 := by
        rw [range?_start (hmarked.symm.trans hrange)]
        exact Nat.zero_min _
      have hplace := isPlace_of_isOnLine (covers_marked hrange).start_onLine hcolumn
      have hkept : (some r).filter (isPlace lines ·.start) = some r := Option.filter_some_pos hplace
      rw [hkept]

end Marks

section Parts

variable {lines : List Text} {selectionOnly : Bool} {commandRange : Option (Int × Int)}
  {marks : (Int × Int) × (Int × Int)} {r : Range}

theorem marked_of_target (h : target lines selectionOnly commandRange marks = some r) :
    marked lines commandRange marks = some r ∧ isPlace lines r.start := by
  cases selectionOnly with
  | false => cases h
  | true => exact Option.filter_eq_some_iff.mp h

/-- The part that a run is for lies between two places and holds text. -/
theorem isPart_of_target (h : target lines selectionOnly commandRange marks = some r) :
    IsPart lines r := by
  rcases marked_of_target h with ⟨hmarked, hplace⟩
  rcases covers_of_marked hmarked with ⟨first, last, -, hcovers⟩
  exact ⟨hplace, hcovers.stop_place, hcovers.nonempty⟩

theorem IsPart.le (h : IsPart lines r) : r.start ≤ r.stop :=
  Range.le_of_isEmpty_eq_false h.nonempty

/-- A place is where the lines before it end. -/
theorem endPoint_upTo {p : Point} (h : isPlace lines p) : endPoint (upTo lines p) = p := by
  rcases exists_parts_of_isPlace h with ⟨xs, a, b, ys, rfl, rfl⟩
  rw [upTo_parts, endPoint, List.length_append, List.length_singleton, Nat.add_sub_cancel,
    List.getLast?_concat, Option.getD_some]

/-- There is text between two places, one of which comes first. -/
theorem IsPart.between_ne_nil (h : IsPart lines r) (hlines : Stored lines) :
    between lines r ≠ [] := by
  intro hnil
  have hjoined := intercalate_upTo_stop h.start_place h.stop_place h.le
  rw [hnil, List.append_nil] at hjoined
  -- Without it the same lines come before both places, so they are one.
  have hsame : upTo lines r.stop = upTo lines r.start := by
    rw [← lines_intercalate (hlines.upTo h.stop_place), hjoined,
      lines_intercalate (hlines.upTo h.start_place)]
  have hpoint := congrArg endPoint hsame
  rw [endPoint_upTo h.stop_place, endPoint_upTo h.start_place] at hpoint
  exact Range.ne_of_isEmpty_eq_false h.nonempty hpoint.symm

/-- What is written between two places leaves the lines as they are if it is the text there. -/
theorem IsPart.put_eq_self_iff (h : IsPart lines r) (hlines : Stored lines) (t : Text) :
    put lines r t.lines = lines ↔ t = between lines r := by
  have hput := text_put lines r (stored_lines t).ne_nil
  rw [Text.lines, Text.intercalate_segments] at hput
  have htext := text_eq_between h.start_place h.stop_place h.le
  constructor
  · -- Both texts have the same parts around what was written.
    intro heq
    rw [← Text.lines, heq, htext] at hput
    exact (List.append_cancel_left (List.append_cancel_right hput)).symm
  · rintro rfl
    have hstored := hlines.put (stored_lines (between lines r)) h.start_place h.stop_place
    exact hstored.eq_of_text_eq hlines (hput.trans htext.symm)

end Parts

end Restyle.Neovim
