import Mathlib.Data.List.Basic
import Restyle.Proofs.Clamping
import Restyle.Proofs.Memory.Place

/-!
# Ranges in a Buffer

When the order of points is the order of the text, and what that means for ranges.

Points are clamped by row and by column. A row that is too large is taken for the last, and the column is
kept, so a point below the text is a point of the last line, and not the end of the text. Among points
below the text the row has therefore no say, and the order of points is not always that of what they stand
for: a point on the last line comes before one below it, which may have the smaller column. These are the
only points that change places. All others stand for offsets in their own order, wherever they lie.

What a range reads is known by its length, which is the difference of two offsets. So two ranges that meet
make up one exactly if the offset at which they meet lies between the other two.

## Main definitions

* `FallsBack`: A point comes after another, and does so no longer once both are clamped.

## Theorems

* `offset_le_of_le`: Points in order stand for offsets in order, if they do not fall back.
* `slice_append_slice`: Two slices that meet are one.
* `byteLength_textInRange`: A range reads as much as there is between its ends.
* `textInRange_append_iff`: When two ranges that meet make up one.
* `offset_eq_byteLength_iff`: When a point below the text stands for its end.
* `textInRange_eq_dropBytes_iff`: When a range reaches to the end of the text.
* `ranges_in_order`: The order of points and what ranges read, in one statement.
-/

namespace Restyle

namespace Text

/-- A point comes after another, and does so no longer once both are clamped: the first is on the last
    line or below it, and the second is further down and has the smaller column. -/
def FallsBack (t : Text) (p q : Point) : Prop :=
  t.lines.length ≤ p.row + 1 ∧ p.row < q.row ∧ q.column < p.column

instance (t : Text) (p q : Point) : Decidable (t.FallsBack p q) :=
  inferInstanceAs (Decidable (_ ∧ _))

/-- On one row the columns decide. -/
theorem offset_le_of_clampRow_eq {t : Text} {p q : Point}
    (hrow : t.clampRow p.row = t.clampRow q.row) (hcolumn : p.column ≤ q.column) :
    t.offset p ≤ t.offset q := by
  rcases t.exists_row p.row with ⟨xs, line, ys, hlines, hp⟩
  rw [offset_of_lines hlines hp, offset_of_lines hlines (hrow.symm.trans hp)]
  refine Nat.add_le_add_left (le_floorBoundary (isBoundary_floorBoundary line p.column) ?_) _
  exact Nat.le_trans (floorBoundary_le line p.column) hcolumn

/-- Points in order stand for offsets in order, however far outside of the text they lie, if the second
    does not fall back. -/
theorem offset_le_of_le {t : Text} {p q : Point} (h : p ≤ q) (hfalls : ¬ t.FallsBack p q) :
    t.offset p ≤ t.offset q := by
  rcases Nat.lt_or_ge (t.clampRow p.row) (t.clampRow q.row) with hlt | hge
  · exact Nat.le_of_lt (offset_lt_of_clampRow_lt hlt)
  · have hrows := (Point.le_iff p q).mp h
    simp only [clampRow, length_lineSpans] at hge
    refine offset_le_of_clampRow_eq ?_ ?_
    · simp only [clampRow, length_lineSpans]
      omega
    · -- Rows that are clamped to the same one differ only on the last line and below.
      unfold FallsBack at hfalls
      omega

theorem FallsBack.le {t : Text} {p q : Point} (h : t.FallsBack p q) : p ≤ q :=
  (Point.le_iff p q).mpr (.inl h.2.1)

theorem FallsBack.offset_le {t : Text} {p q : Point} (h : t.FallsBack p q) :
    t.offset q ≤ t.offset p := by
  refine offset_le_of_clampRow_eq ?_ (Nat.le_of_lt h.2.2)
  have hlast := h.1
  have hrow := h.2.1
  simp only [clampRow, length_lineSpans]
  omega

/-- A point on the last line or below it stands for the end of the text if its column is past that of the
    last character. -/
theorem offset_eq_byteLength_iff {t last : Text} {p : Point} (hlast : t.lines.getLast? = some last)
    (hbelow : t.lines.length ≤ p.row + 1) :
    t.offset p = t.byteLength ↔ last.byteLength ≤ p.column := by
  rcases List.getLast?_eq_some_iff.mp hlast with ⟨xs, hlines⟩
  have hrow : t.clampRow p.row = xs.length := by
    rw [hlines, List.length_append, List.length_singleton] at hbelow
    rw [clampRow, length_lineSpans, hlines, List.length_append, List.length_singleton]
    omega
  have htotal : t.byteLength = (ended xs).byteLength + last.byteLength := by
    conv_lhs => rw [eq_of_lines hlines, List.intercalate_singleton, List.append_nil]
    exact byteLength_append _ _
  rw [offset_of_lines hlines hrow, htotal, Nat.add_left_cancel_iff]
  constructor
  · intro h
    rw [← h]
    exact floorBoundary_le last p.column
  · intro h
    exact Nat.le_antisymm (isBoundary_floorBoundary last p.column).le
      (le_floorBoundary (isBoundary_byteLength last) h)

/-- Two slices that meet are one. -/
theorem slice_append_slice {t : Text} {i j k : Nat} (hi : t.IsBoundary i) (hj : t.IsBoundary j)
    (hk : t.IsBoundary k) (hij : i ≤ j) (hjk : j ≤ k) :
    t.slice i j ++ t.slice j k = t.slice i k := by
  rcases exists_parts hi hj hij with ⟨a, b, rest, ht, rfl, rfl⟩
  rcases exists_parts hj hk hjk with ⟨front, c, d, ht', hfront, rfl⟩
  -- The text is cut at the middle offset in one way only.
  have hcut : a ++ b ++ rest = front ++ (c ++ d) := by rw [← ht, ht', List.append_assoc]
  rcases exists_append_of_byteLength_le hcut (Nat.le_of_eq hfront.symm) with ⟨e, hab, hrest⟩
  have he : e = [] := by
    rw [hab, byteLength_append] at hfront
    exact eq_nil_of_byteLength (by omega)
  rw [he, List.append_nil] at hab
  rw [he, List.nil_append] at hrest
  subst hab hrest
  have hwhole : a ++ b ++ (c ++ d) = a ++ (b ++ c) ++ d := by simp only [List.append_assoc]
  have hthree : a ++ b ++ (c ++ d) = a ++ b ++ c ++ d := by simp only [List.append_assoc]
  rw [ht, slice_append a b, hthree, slice_append (a ++ b) c d, ← hthree, hwhole,
    List.append_assoc a b c, slice_append a (b ++ c) d]

end Text

namespace Buffer

/-- A range reads as much as there is between its ends. -/
theorem byteLength_textInRange (b : Buffer) (r : Range) :
    (b.textInRange r).byteLength = b.text.offset r.stop - b.text.offset r.start := by
  rcases b.exists_placeParts (some r) with ⟨before, piece, behind, ht, hs, he⟩
  have hpiece : b.textInRange r = piece := placeText_eq ht hs he
  change before.byteLength = b.text.offset r.start at hs
  change _ = max (b.text.offset r.stop) (b.text.offset r.start) at he
  rw [Text.byteLength_append] at he
  rw [hpiece]
  omega

theorem textInRange_eq_slice {b : Buffer} {r : Range}
    (h : b.text.offset r.start ≤ b.text.offset r.stop) :
    b.textInRange r = b.text.slice (b.text.offset r.start) (b.text.offset r.stop) := by
  rw [textInRange, span]
  simp only [Nat.max_eq_left h]

theorem textInRange_eq_nil {b : Buffer} {r : Range}
    (h : b.text.offset r.stop ≤ b.text.offset r.start) : b.textInRange r = [] := by
  refine Text.eq_nil_of_byteLength ?_
  rw [byteLength_textInRange]
  omega

/-- Two ranges that meet make up one if the offset at which they meet lies between the other two, in one
    direction or the other, and only then. -/
theorem textInRange_append_iff (b : Buffer) (x y z : Point) :
    b.textInRange ⟨x, y⟩ ++ b.textInRange ⟨y, z⟩ = b.textInRange ⟨x, z⟩ ↔
      (b.text.offset x ≤ b.text.offset y ∧ b.text.offset y ≤ b.text.offset z) ∨
        (b.text.offset z ≤ b.text.offset y ∧ b.text.offset y ≤ b.text.offset x) := by
  constructor
  · intro h
    have hlength := congrArg Text.byteLength h
    simp only [Text.byteLength_append, byteLength_textInRange] at hlength
    omega
  · rintro (⟨hxy, hyz⟩ | ⟨hzy, hyx⟩)
    · rw [textInRange_eq_slice (r := ⟨x, y⟩) hxy, textInRange_eq_slice (r := ⟨y, z⟩) hyz,
        textInRange_eq_slice (r := ⟨x, z⟩) (Nat.le_trans hxy hyz)]
      exact Text.slice_append_slice (Text.isBoundary_offset _ x) (Text.isBoundary_offset _ y)
        (Text.isBoundary_offset _ z) hxy hyz
    · rw [textInRange_eq_nil (r := ⟨x, y⟩) hyx, textInRange_eq_nil (r := ⟨y, z⟩) hzy,
        textInRange_eq_nil (r := ⟨x, z⟩) (Nat.le_trans hzy hyx), List.append_nil]

/-- A range reads all that is behind its start if it ends at the end of the text, or if there is nothing
    left to read. -/
theorem textInRange_eq_dropBytes_iff (b : Buffer) (r : Range) :
    b.textInRange r = b.text.dropBytes (b.text.offset r.start) ↔
      b.text.offset r.stop = b.text.byteLength ∨ b.text.offset r.start = b.text.byteLength := by
  rcases Text.exists_halves (Text.isBoundary_offset b.text r.start) with ⟨front, back, ht, hfront⟩
  have hdrop : b.text.dropBytes (b.text.offset r.start) = back := by
    rw [← hfront, ht, Text.dropBytes_append]
  have htotal : b.text.byteLength = b.text.offset r.start + back.byteLength := by
    rw [← hfront, ← Text.byteLength_append, ← ht]
  have hstop := (Text.isBoundary_offset b.text r.stop).le
  rw [hdrop]
  constructor
  · intro h
    have hlength := byteLength_textInRange b r
    rw [h] at hlength
    omega
  · rintro (hend | hend)
    · rw [textInRange_eq_slice (by omega), hend, ← hfront, ht]
      have hslice := Text.slice_append front back []
      rwa [List.append_nil] at hslice
    · rw [Text.eq_nil_of_byteLength (t := back) (by omega)]
      exact textInRange_eq_nil (by omega)

/-- Points in order stand for offsets in order unless the second falls back, and then the offsets are the
    other way around. So two ranges that meet make up one if none of their ends falls back, and in general
    exactly if the offset at which they meet lies between the other two. A range that ends below the text
    reaches to its end exactly if its last column reaches the end of the last line, or if it starts at the
    end. -/
theorem ranges_in_order (b : Buffer) :
    (∀ p q, p ≤ q → ¬ b.text.FallsBack p q → b.text.offset p ≤ b.text.offset q) ∧
    (∀ p q, b.text.FallsBack p q → p ≤ q ∧ b.text.offset q ≤ b.text.offset p) ∧
    (∀ x y z, x ≤ y → y ≤ z → ¬ b.text.FallsBack x y → ¬ b.text.FallsBack y z →
      b.textInRange ⟨x, y⟩ ++ b.textInRange ⟨y, z⟩ = b.textInRange ⟨x, z⟩) ∧
    (∀ x y z, b.textInRange ⟨x, y⟩ ++ b.textInRange ⟨y, z⟩ = b.textInRange ⟨x, z⟩ ↔
      (b.text.offset x ≤ b.text.offset y ∧ b.text.offset y ≤ b.text.offset z) ∨
        (b.text.offset z ≤ b.text.offset y ∧ b.text.offset y ≤ b.text.offset x)) ∧
    ∀ (r : Range) (last : Text), b.text.lines.getLast? = some last →
      b.text.lines.length ≤ r.stop.row →
      (b.textInRange r = b.text.dropBytes (b.text.offset r.start) ↔
        last.byteLength ≤ r.stop.column ∨ b.text.offset r.start = b.text.byteLength) := by
  refine ⟨fun p q => Text.offset_le_of_le, fun p q h => ⟨h.le, h.offset_le⟩, ?_,
    b.textInRange_append_iff, ?_⟩
  · intro x y z hxy hyz hfallsxy hfallsyz
    exact (b.textInRange_append_iff x y z).mpr
      (.inl ⟨Text.offset_le_of_le hxy hfallsxy, Text.offset_le_of_le hyz hfallsyz⟩)
  · intro r last hlast hbelow
    rw [textInRange_eq_dropBytes_iff, Text.offset_eq_byteLength_iff hlast (by omega)]

/-- A buffer whose last line has no newline behind it. -/
def openEnded : Buffer :=
  ofText "é\nabc".toList

theorem ranges_in_order_openEnded :
    (⟨0, 1⟩ : Point) ≤ ⟨9, 2⟩ ∧ ¬ openEnded.text.FallsBack ⟨0, 1⟩ ⟨9, 2⟩ ∧
      openEnded.text.offset ⟨0, 1⟩ ≤ openEnded.text.offset ⟨9, 2⟩ ∧
      openEnded.text.FallsBack ⟨1, 3⟩ ⟨2, 1⟩ ∧
      openEnded.text.offset ⟨2, 1⟩ ≤ openEnded.text.offset ⟨1, 3⟩ ∧
      openEnded.textInRange ⟨⟨0, 9⟩, ⟨1, 1⟩⟩ ++ openEnded.textInRange ⟨⟨1, 1⟩, ⟨4, 7⟩⟩ =
        openEnded.textInRange ⟨⟨0, 9⟩, ⟨4, 7⟩⟩ ∧
      openEnded.textInRange ⟨⟨1, 1⟩, ⟨4, 7⟩⟩ = openEnded.text.dropBytes 4 := by
  rcases ranges_in_order openEnded with ⟨hkeeps, hfalls, hmeet, -, hreach⟩
  refine ⟨by decide, by decide, hkeeps _ _ (by decide) (by decide), by decide,
    (hfalls _ _ (by decide)).2,
    hmeet _ _ _ (by decide) (by decide) (by decide) (by decide), ?_⟩
  exact (hreach ⟨⟨1, 1⟩, ⟨4, 7⟩⟩ "abc".toList (by decide) (by decide)).mpr (.inl (by decide))

/-- A point on the last line comes before the start of the row below, and stands for a later offset. So
    the ranges that meet there do not make up one, and the range from there to the row below is empty,
    although there is text behind its start. -/
theorem below_text_not_in_order :
    (⟨0, 2⟩ : Point) ≤ ⟨1, 0⟩ ∧
      (ofText "abc".toList).text.offset ⟨1, 0⟩ < (ofText "abc".toList).text.offset ⟨0, 2⟩ ∧
      (ofText "abc".toList).textInRange ⟨⟨0, 0⟩, ⟨0, 2⟩⟩ ++
          (ofText "abc".toList).textInRange ⟨⟨0, 2⟩, ⟨1, 0⟩⟩ ≠
        (ofText "abc".toList).textInRange ⟨⟨0, 0⟩, ⟨1, 0⟩⟩ ∧
      (ofText "abc".toList).textInRange ⟨⟨0, 1⟩, ⟨1, 0⟩⟩ = [] := by
  decide

end Buffer

end Restyle
