import Mathlib.Order.Bounds.Defs
import Restyle.Proofs.Clamping
import Restyle.Proofs.Text.Bytes

/-!
# Points of a Text

That points and offsets say the same where a text has them.

A point may lie anywhere, and many points stand for the same offset. Among them there is one that the
text has: its row is there, and its column is a place between two characters of that line. Clamping finds
it. So a point that the text has is one that clamping leaves alone, and such points and the places between
the characters of the text are in step: where two texts meet, the point is the number of lines in front
of the last one of the first text, with the length of that.

What an editor counts are bytes, so the places between characters are those where a byte continues none,
and the lines are what lies between newline bytes.

## Main definitions

* `HasPoint`: A point is one of the text.
* `ListsLines`: Spans are those of the lines of a text, in order.

## Theorems

* `listsLines_lineSpans`: The spans that a text is cut into are those of its lines.
* `isGreatest_offset`: A point stands for the last boundary that is not above it.
* `hasPoint_clamp`, `clamp_eq_self_iff`: Clamping finds the points of a text.
* `offset_injective`, `exists_point`: A boundary is the offset of one point of the text.
* `points_exact`: The table of lines, offsets and clamping, in one statement.
-/

namespace Restyle.Text

/-- A point of a text: its row is there, and its column is a place between two characters of the line. -/
def HasPoint (t : Text) (p : Point) : Prop :=
  ∃ line, t.lines[p.row]? = some line ∧ line.IsCharBoundary p.column

/-- Spans list the lines of a text: one after the other from the start of the text to its end, each but
    the last ended by a newline byte, and with the lines between their ends. -/
structure ListsLines (spans : List Span) (t : Text) : Prop where
  first : spans.head?.map Span.start = some 0
  last : spans.getLast?.map Span.stop = some t.byteLength
  ordered : ∀ s ∈ spans, s.start ≤ s.stop
  consecutive : spans.IsChain fun s s' => s'.start = s.stop + 1
  newlines : spans.dropLast.map Span.stop = List.idxsOf 10 t.toUtf8
  joined : ['\n'].intercalate (spans.map fun s => t.slice s.start s.stop) = t

/-- What lies between the ends of the spans are the lines. -/
theorem slices_lineSpans (t : Text) : (t.lineSpans.map fun s => t.slice s.start s.stop) = t.lines := by
  have hslices := slices_spansFrom (show '\n'.utf8Size = 1 from rfl) [] [] t.lines
  rwa [lines, intercalate_segments, List.nil_append, List.append_nil] at hslices

theorem listsLines_lineSpans (t : Text) : ListsLines t.lineSpans t := by
  have hjoin : ['\n'].intercalate t.lines = t := intercalate_segments '\n' t
  have hlast := getLast?_spansFrom (show '\n'.utf8Size = 1 from rfl) 0
    (show t.lines ≠ [] from segments_ne_nil t)
  rw [Nat.zero_add, hjoin] at hlast
  have hstops := map_stop_dropLast_spansFrom 0
    fun line (hline : line ∈ t.lines) => not_mem_of_mem_segments hline
  rw [hjoin] at hstops
  exact {
    first := rfl
    last := hlast
    ordered := fun s hs => (le_of_mem_spansFrom hs).2
    consecutive := isChain_spansFrom 0 t.lines
    newlines := hstops
    joined := by rw [slices_lineSpans, hjoin] }

/-- A point stands for the last boundary that is not above it, where one past the end of its line is
    taken for the end. -/
theorem isGreatest_offset (t : Text) (p : Point) :
    IsGreatest {n | t.IsCharBoundary n ∧
      n ≤ min ((t.rowSpan p.row).start + p.column) (t.rowSpan p.row).stop} (t.offset p) :=
  ⟨⟨isCharBoundary_iff.mpr (t.isBoundary_offset p), floorBoundary_le t _⟩,
    fun _ hn => le_floorBoundary (isCharBoundary_iff.mp hn.1) hn.2⟩

theorem clampRow_of_lt {t : Text} {row : Nat} (h : row < t.lines.length) : t.clampRow row = row := by
  rw [clampRow, length_lineSpans]
  omega

/-- What a point is clamped to is a point of the text. -/
theorem hasPoint_clamp (t : Text) (p : Point) : t.HasPoint (t.clamp p) := by
  rcases t.exists_row p.row with ⟨xs, line, ys, hlines, hrow⟩
  rw [clamp_of_lines hlines hrow]
  refine ⟨line, ?_, isCharBoundary_iff.mpr (isBoundary_floorBoundary line p.column)⟩
  rw [hlines, List.getElem?_append_right (Nat.le_refl _), Nat.sub_self, List.getElem?_cons_zero]

/-- A point of the text is the number of lines before it and the length of what comes before it on its
    own line. -/
theorem HasPoint.exists_parts {t : Text} {p : Point} (h : t.HasPoint p) :
    ∃ xs a b ys, t.lines = xs ++ (a ++ b) :: ys ∧ p = ⟨xs.length, a.byteLength⟩ := by
  rcases h with ⟨line, hline, hcolumn⟩
  rcases exists_linePieces hline (isCharBoundary_iff.mp hcolumn) with ⟨xs, a, b, ys, hlines, hrow, ha⟩
  exact ⟨xs, a, b, ys, hlines, by rw [← hrow, ← ha]⟩

section Parts

variable {t : Text} {xs : List Text} {a b : Text} {ys : List Text}
  (h : t.lines = xs ++ (a ++ b) :: ys)

include h

theorem clampRow_of_parts : t.clampRow xs.length = xs.length := by
  refine clampRow_of_lt ?_
  rw [h, List.length_append, List.length_cons]
  omega

/-- A point of the text stands for the length of all that comes before it. -/
theorem offset_of_parts :
    t.offset ⟨xs.length, a.byteLength⟩ = byteLength (ended xs ++ a) := by
  rw [offset_of_lines h (clampRow_of_parts h), isBoundary_append a b, byteLength_append]

theorem clamp_of_parts : t.clamp ⟨xs.length, a.byteLength⟩ = ⟨xs.length, a.byteLength⟩ := by
  rw [clamp_of_lines h (clampRow_of_parts h), isBoundary_append a b]

end Parts

/-- The points of a text are those that clamping leaves alone. -/
theorem clamp_eq_self_iff {t : Text} {p : Point} : t.clamp p = p ↔ t.HasPoint p := by
  constructor
  · intro h
    rw [← h]
    exact t.hasPoint_clamp p
  · intro h
    rcases h.exists_parts with ⟨xs, a, b, ys, hlines, rfl⟩
    exact clamp_of_parts hlines

/-- No two points of a text stand for the same offset. -/
theorem offset_injective {t : Text} {p q : Point} (hp : t.HasPoint p) (hq : t.HasPoint q)
    (h : t.offset p = t.offset q) : p = q := by
  have hp := clamp_eq_self_iff.mpr hp
  have hq := clamp_eq_self_iff.mpr hq
  rcases Nat.lt_trichotomy (t.clampRow p.row) (t.clampRow q.row) with hlt | hrow | hlt
  · exact absurd h (Nat.ne_of_lt (offset_lt_of_clampRow_lt hlt))
  · -- On the same row the columns are what the offset is past its start.
    have hrows : p.row = q.row := by
      rw [← hp, ← hq]
      exact hrow
    rw [← hp, ← hq, clamp, clamp, h, hrows]
  · exact absurd h.symm (Nat.ne_of_lt (offset_lt_of_clampRow_lt hlt))

/-- A place where a text can be cut is the offset of one of its points. -/
theorem exists_point {t : Text} {n : Nat} (h : t.IsBoundary n) :
    ∃ p, t.HasPoint p ∧ t.offset p = n := by
  rcases exists_halves h with ⟨front, back, rfl, rfl⟩
  rcases @exists_segments_append '\n' front back with ⟨xs, a, b, ys, hfront, -, hlines⟩
  have hjoin : ended xs ++ a = front := by
    rw [← intercalate_segments '\n' front, hfront, intercalate_append_ended _ (List.cons_ne_nil _ _),
      List.intercalate_singleton]
  refine ⟨⟨xs.length, a.byteLength⟩, clamp_eq_self_iff.mp (clamp_of_parts hlines), ?_⟩
  rw [offset_of_parts hlines, hjoin]

/-- Offsets and points are exact. The table of lines has one span after the other, and its spans hold
    the lines that newline bytes end. A point stands for an offset on the row it is clamped to, and that
    is the last place between characters that is not above its column. What it is clamped to is a point
    of the text for the same offset, which is not clamped any further, and only the points of the text
    are clamped to themselves. Each place between characters is the offset of one point of the text. -/
theorem points_exact (t : Text) :
    ListsLines t.lineSpans t ∧
    (∀ p : Point,
      t.lineSpans[min p.row (t.lineSpans.length - 1)]? = some (t.rowSpan p.row) ∧
      (t.rowSpan p.row).start ≤ t.offset p ∧ t.offset p ≤ (t.rowSpan p.row).stop ∧
      IsGreatest {n | t.IsCharBoundary n ∧
        n ≤ min ((t.rowSpan p.row).start + p.column) (t.rowSpan p.row).stop} (t.offset p) ∧
      t.HasPoint (t.clamp p) ∧ t.offset (t.clamp p) = t.offset p ∧
      t.clamp (t.clamp p) = t.clamp p ∧ (t.clamp p = p ↔ t.HasPoint p)) ∧
    ∀ n, t.IsCharBoundary n ↔ ∃! p, t.HasPoint p ∧ t.offset p = n := by
  refine ⟨t.listsLines_lineSpans, fun p => ?_, fun n => ⟨fun h => ?_, ?_⟩⟩
  · rcases t.offset_mem_rowSpan p with ⟨hstart, hstop⟩
    exact ⟨List.getElem?_eq_getElem (t.clampRow_lt p.row), hstart, hstop, t.isGreatest_offset p,
      t.hasPoint_clamp p, t.offset_clamp p, t.clamp_clamp p, clamp_eq_self_iff⟩
  · rcases exists_point (isCharBoundary_iff.mp h) with ⟨p, hp, hoffset⟩
    exact ⟨p, ⟨hp, hoffset⟩, fun q hq => offset_injective hq.1 hp (hq.2.trans hoffset.symm)⟩
  · rintro ⟨p, ⟨-, rfl⟩, -⟩
    exact isCharBoundary_iff.mpr (t.isBoundary_offset p)

end Restyle.Text
