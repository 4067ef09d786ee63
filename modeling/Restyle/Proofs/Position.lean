import Restyle.Position
import Restyle.Proofs.Text.Boundary

/-!
# Points and Offsets

The order of points, and where the offsets lie that points stand for.

Whether a range is empty is asked backwards, as whether it does not start before it ends. For two
points that is the same question, because their order is total: one of them comes first unless both
are the same.

An offset is found by looking for a boundary downwards, so it is one, whatever the point was. This is
what makes it possible to cut a text there.

## Theorems

* `order_swap`: Exchanging two points turns their order around.
* `le_iff`: The order of points is that of rows, and that of columns on the same row.
* `isEmpty_eq_false_iff`: A range that is not empty starts before it ends.
* `rowSpan_eq`: The span of a row that is there.
* `isBoundary_offset`: A point stands for a boundary.
-/

namespace Restyle

/-- Exchanging two points turns their order around. -/
theorem Point.order_swap (p q : Point) : (p.order q).swap = q.order p := by
  unfold Point.order
  rw [Ordering.swap_then, Nat.compare_swap, Nat.compare_swap]

/-- A point comes no later than another if its row comes first, or its column on the same row. -/
theorem Point.le_iff (p q : Point) :
    p ≤ q ↔ p.row < q.row ∨ p.row = q.row ∧ p.column ≤ q.column := by
  change p.order q ≠ .gt ↔ _
  unfold Point.order
  rcases Nat.lt_trichotomy p.row q.row with h | h | h
  · rw [Nat.compare_eq_lt.mpr h]
    simp [h]
  · rw [Nat.compare_eq_eq.mpr h]
    simp [h, Nat.compare_ne_gt]
  · rw [Nat.compare_eq_gt.mpr h]
    simp only [Ordering.then, ne_eq, not_true_eq_false, false_iff]
    omega

/-- A range that is not empty starts before it ends. -/
theorem Range.isEmpty_eq_false_iff (r : Range) :
    r.isEmpty = false ↔ r.start.order r.stop = .lt := by
  have hswap := Point.order_swap r.stop r.start
  unfold Range.isEmpty
  rw [decide_eq_false_iff_not]
  change ¬ (r.stop.order r.start ≠ .gt) ↔ _
  rw [Decidable.not_not, ← hswap]
  cases r.stop.order r.start <;> decide

theorem Range.le_of_isEmpty_eq_false {r : Range} (h : r.isEmpty = false) : r.start ≤ r.stop := by
  rw [Range.isEmpty_eq_false_iff] at h
  change r.start.order r.stop ≠ .gt
  rw [h]
  decide

theorem Range.ne_of_isEmpty_eq_false {r : Range} (h : r.isEmpty = false) : r.start ≠ r.stop := by
  intro heq
  have hle : r.stop ≤ r.start := by
    rw [Point.le_iff, heq]
    exact .inr ⟨rfl, Nat.le_refl _⟩
  rw [Range.isEmpty, decide_eq_true hle] at h
  cases h

namespace Text

/-- The span of the row of a point, if there is that row. -/
theorem rowSpan_eq {t : Text} {row : Nat} {span : Span} (h : t.lineSpans[row]? = some span) :
    t.rowSpan row = span := by
  rcases List.getElem?_eq_some_iff.mp h with ⟨hlt, hspan⟩
  have hrow : t.clampRow row = row := by
    unfold clampRow
    omega
  have hindex : (⟨t.clampRow row, t.clampRow_lt row⟩ : Fin t.lineSpans.length) = ⟨row, hlt⟩ :=
    Fin.ext hrow
  rw [rowSpan, hindex]
  exact hspan

/-- A point stands for a boundary, however far outside the text it lies. -/
theorem isBoundary_offset (t : Text) (p : Point) : t.IsBoundary (t.offset p) :=
  isBoundary_floorBoundary t _

end Text

end Restyle
