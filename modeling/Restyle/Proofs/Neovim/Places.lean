import Restyle.Neovim.Selection
import Restyle.Proofs.Memory.Place
import Restyle.Proofs.Neovim.Lines
import Restyle.Proofs.Text.Spans

/-!
# Places in Lines and in Text

A place is a row and a column for an editor, and an offset in a text for a buffer in memory.

A place cuts the lines in two: what comes before it, up to the middle of its own line, and what comes
after. Put together the two are the lines again, so joined and appended they are the text. This is why
both kinds of address mean the same. The offset of a place is the length of what comes before it when
that is joined, and two places cut the text into three parts, which are the only ones of their lengths.

Everything is computed from the shape of the lines around a place, which is a list of lines, a line in
two pieces, and another list. `exists_parts_of_isPlace` gives that shape.

## Main definitions

* `cut`: The lines between two places.
* `put`: Lines in place of those between two places.
* `endPoint`: Where the last line ends.

## Theorems

* `weld_upTo_fromPoint`: What comes before a place and what comes after make up the lines.
* `weld_upTo_cut`: What comes before the second of two places, by the first.
* `text_eq_between`: Two places cut the text into three parts.
* `offset_text`: A place stands for the length of what comes before it.
* `textInRange_eq_between`, `text_setTextInRange`: Reading and replacing in a buffer in memory.
* `replace_eq_put`: Replacing is the same with and without the text.
* `reachesEnd_eq`: Whether a range reaches the end of the lines.
-/

namespace Restyle.Neovim.Lines

/-- The lines between two places. -/
def cut (lines : List Text) (r : Range) : List Text :=
  fromPoint (upTo lines r.stop) r.start

/-- Lines in place of those between two places. The first goes on after the start, and what stands
    behind the end goes on after the last. -/
def put (lines : List Text) (r : Range) (new : List Text) : List Text :=
  weld (weld (upTo lines r.start) new) (fromPoint lines r.stop)

/-- Where the last of several lines ends. -/
def endPoint (lines : List Text) : Point :=
  ⟨lines.length - 1, (lines.getLast?.getD []).byteLength⟩

/-- A place lies on a line in two pieces. -/
theorem exists_parts_of_isPlace {lines : List Text} {p : Point} (h : isPlace lines p) :
    ∃ xs a b ys, lines = xs ++ (a ++ b) :: ys ∧ p = ⟨xs.length, Text.byteLength a⟩ := by
  unfold isPlace at h
  cases hline : lines[p.row]? with
  | none =>
      rw [hline] at h
      exact absurd h Bool.false_ne_true
  | some line =>
      rw [hline] at h
      rcases Text.exists_linePieces hline (beq_iff_eq.mp h) with ⟨xs, a, b, ys, hlines, hrow, hcolumn⟩
      exact ⟨xs, a, b, ys, hlines, by rw [← hrow, ← hcolumn]⟩

section Parts

variable (xs : List Text) (a b : Text) (ys : List Text)

theorem getElem?_parts : (xs ++ (a ++ b) :: ys)[xs.length]? = some (a ++ b) := by
  rw [List.getElem?_append_right (Nat.le_refl _), Nat.sub_self, List.getElem?_cons_zero]

theorem upTo_parts :
    upTo (xs ++ (a ++ b) :: ys) ⟨xs.length, Text.byteLength a⟩ = xs ++ [a] := by
  rw [upTo, List.getD_eq_getElem?_getD, getElem?_parts, List.take_left' rfl, Option.getD_some,
    Text.takeBytes_append]

theorem fromPoint_parts :
    fromPoint (xs ++ (a ++ b) :: ys) ⟨xs.length, Text.byteLength a⟩ = b :: ys := by
  have hrest : (xs ++ (a ++ b) :: ys).drop (xs.length + 1) = ys := by
    rw [List.drop_append, List.drop_of_length_le (Nat.le_succ _), Nat.add_sub_cancel_left]
    rfl
  rw [fromPoint, List.getD_eq_getElem?_getD, getElem?_parts, Option.getD_some,
    Text.dropBytes_append, hrest]

end Parts

theorem isOnLine_of_isPlace {lines : List Text} {p : Point} (h : isPlace lines p) :
    isOnLine lines p := by
  rcases exists_parts_of_isPlace h with ⟨xs, a, b, ys, rfl, rfl⟩
  unfold isOnLine
  rw [getElem?_parts]
  refine decide_eq_true ?_
  rw [Text.byteLength_append]
  exact Nat.le_add_right _ _

/-- What comes before a place and what comes after make up the lines. -/
theorem weld_upTo_fromPoint {lines : List Text} {p : Point} (h : isPlace lines p) :
    weld (upTo lines p) (fromPoint lines p) = lines := by
  rcases exists_parts_of_isPlace h with ⟨xs, a, b, ys, rfl, rfl⟩
  rw [upTo_parts, fromPoint_parts, weld_concat_cons]

theorem upTo_ne_nil (lines : List Text) (p : Point) : upTo lines p ≠ [] :=
  List.append_ne_nil_of_right_ne_nil _ (List.cons_ne_nil _ _)

theorem fromPoint_ne_nil (lines : List Text) (p : Point) : fromPoint lines p ≠ [] :=
  List.cons_ne_nil _ _

/-- A place that comes before another lies on a line in two pieces of what comes before the other. -/
theorem exists_parts_of_le {lines : List Text} {p q : Point} (hp : isPlace lines p)
    (hq : isPlace lines q) (hle : p ≤ q) :
    ∃ xs a b ys e zs, lines = xs ++ (a ++ b) :: ys ∧ p = ⟨xs.length, Text.byteLength a⟩ ∧
      upTo lines q = xs ++ (a ++ e) :: zs := by
  rcases exists_parts_of_isPlace hp with ⟨xs, a, b, ys, hlines, rfl⟩
  rcases exists_parts_of_isPlace hq with ⟨us, c, d, vs, hlines', rfl⟩
  have hupTo : upTo lines ⟨us.length, Text.byteLength c⟩ = us ++ [c] := by
    rw [hlines', upTo_parts]
  have heq := hlines.symm.trans hlines'
  rcases (Point.le_iff _ _).mp hle with hrow | ⟨hrow, hcolumn⟩
  · -- The line of the first place is among those before the line of the second.
    change xs.length < us.length at hrow
    rcases List.append_eq_append_iff.mp heq with ⟨ws, hus, hws⟩ | ⟨ws, hxs, -⟩
    · cases ws with
      | nil =>
          rw [hus, List.append_nil] at hrow
          exact absurd hrow (Nat.lt_irrefl _)
      | cons w ws =>
          have hw : a ++ b = w := (List.cons.inj hws).1
          refine ⟨xs, a, b, ys, b, ws ++ [c], hlines, rfl, ?_⟩
          rw [hupTo, hus, hw, List.append_assoc, List.cons_append]
    · rw [hxs, List.length_append] at hrow
      omega
  · -- Both places lie on one line, of which the first cuts off less.
    change xs.length = us.length at hrow
    rcases List.append_inj heq hrow with ⟨hxs, hline⟩
    rcases Text.exists_append_of_byteLength_le (List.cons.inj hline).1 hcolumn with ⟨e, hc, -⟩
    exact ⟨xs, a, b, ys, e, [], hlines, rfl, by rw [hupTo, hxs, hc]⟩

/-- What comes before the first of two places, put together with what lies between them, is what comes
    before the second. -/
theorem weld_upTo_cut {lines : List Text} {r : Range} (hp : isPlace lines r.start)
    (hq : isPlace lines r.stop) (hle : r.start ≤ r.stop) :
    weld (upTo lines r.start) (cut lines r) = upTo lines r.stop := by
  rcases exists_parts_of_le hp hq hle with ⟨xs, a, b, ys, e, zs, hlines, hpoint, hupTo⟩
  rw [cut, hupTo, hpoint, fromPoint_parts, hlines, upTo_parts, weld_concat_cons]

/-- Joined, what lies between two places follows what comes before the first. -/
theorem intercalate_upTo_stop {lines : List Text} {r : Range} (hp : isPlace lines r.start)
    (hq : isPlace lines r.stop) (hle : r.start ≤ r.stop) :
    ['\n'].intercalate (upTo lines r.stop) =
      ['\n'].intercalate (upTo lines r.start) ++ between lines r := by
  rw [← weld_upTo_cut hp hq hle]
  exact intercalate_weld (upTo_ne_nil _ _) (fromPoint_ne_nil _ _)

/-- Two places cut the text into three parts. -/
theorem text_eq_between {lines : List Text} {r : Range} (hp : isPlace lines r.start)
    (hq : isPlace lines r.stop) (hle : r.start ≤ r.stop) :
    text lines =
      ['\n'].intercalate (upTo lines r.start) ++ between lines r ++ text (fromPoint lines r.stop) := by
  rw [← intercalate_upTo_stop hp hq hle, text, text, ← List.append_assoc,
    ← intercalate_weld (upTo_ne_nil _ _) (fromPoint_ne_nil _ _), weld_upTo_fromPoint hq]

/-- What is put between two places stands there in the text. -/
theorem text_put (lines : List Text) (r : Range) {new : List Text} (h : new ≠ []) :
    text (put lines r new) =
      ['\n'].intercalate (upTo lines r.start) ++ ['\n'].intercalate new ++
        text (fromPoint lines r.stop) := by
  have hne : weld (upTo lines r.start) new ≠ [] :=
    List.append_ne_nil_of_right_ne_nil _ (List.cons_ne_nil _ _)
  rw [put, text, intercalate_weld hne (fromPoint_ne_nil _ _), intercalate_weld (upTo_ne_nil _ _) h,
    text, List.append_assoc]

theorem Stored.upTo {lines : List Text} {p : Point} (h : Stored lines) (hp : isPlace lines p) :
    Stored (upTo lines p) := by
  rcases exists_parts_of_isPlace hp with ⟨xs, a, b, ys, rfl, rfl⟩
  rw [upTo_parts]
  refine ⟨List.append_ne_nil_of_right_ne_nil _ (List.cons_ne_nil _ _), ?_⟩
  intro line hline
  rcases List.mem_append.mp hline with hbefore | hlast
  · exact h.no_newline line (List.mem_append_left _ hbefore)
  · have hwhole := h.no_newline (a ++ b) (List.mem_append_right _ List.mem_cons_self)
    rw [List.mem_append, not_or] at hwhole
    rw [List.mem_singleton.mp hlast]
    exact hwhole.1

theorem Stored.fromPoint {lines : List Text} {p : Point} (h : Stored lines)
    (hp : isPlace lines p) : Stored (fromPoint lines p) := by
  rcases exists_parts_of_isPlace hp with ⟨xs, a, b, ys, rfl, rfl⟩
  rw [fromPoint_parts]
  refine ⟨List.cons_ne_nil _ _, ?_⟩
  intro line hline
  rcases List.mem_cons.mp hline with rfl | hafter
  · have hwhole := h.no_newline (a ++ line) (List.mem_append_right _ List.mem_cons_self)
    rw [List.mem_append, not_or] at hwhole
    exact hwhole.2
  · exact h.no_newline line (List.mem_append_right _ (List.mem_cons_of_mem _ hafter))

/-- Lines stay as an editor keeps them when others are put between two places. -/
theorem Stored.put {lines new : List Text} {r : Range} (h : Stored lines) (hnew : Stored new)
    (hp : isPlace lines r.start) (hq : isPlace lines r.stop) : Stored (put lines r new) :=
  ((h.upTo hp).weld hnew).weld (h.fromPoint hq)

/-- Replacing a text by joining and splitting is the same as putting its lines in its place. -/
theorem replace_eq_put {lines : List Text} {r : Range} (h : Stored lines)
    (hp : isPlace lines r.start) (hq : isPlace lines r.stop) (t : Text) :
    replace lines r t = put lines r t.lines := by
  have htext : text (replace lines r t) = text (put lines r t.lines) := by
    rw [text_replace, text_put _ _ (stored_lines t).ne_nil, Text.lines, Text.intercalate_segments]
  exact (stored_lines _).eq_of_text_eq (h.put (stored_lines t) hp hq) htext

/-- A place stands for the length of what comes before it. -/
theorem offset_text {lines : List Text} {p : Point} (h : Stored lines) (hp : isPlace lines p) :
    (text lines).offset p = Text.byteLength (['\n'].intercalate (upTo lines p)) := by
  rcases exists_parts_of_isPlace hp with ⟨xs, a, b, ys, rfl, rfl⟩
  have hspan : (text (xs ++ (a ++ b) :: ys)).lineSpans[xs.length]? = some
      ⟨(closed xs).byteLength, (closed xs).byteLength + (a ++ b).byteLength⟩ := by
    rw [Text.lineSpans, lines_text h, List.append_assoc, List.cons_append, Text.getElem?_spansFrom,
      Nat.zero_add]
    rfl
  have hbefore : ['\n'].intercalate (upTo (xs ++ (a ++ b) :: ys) ⟨xs.length, a.byteLength⟩) =
      closed xs ++ a := by
    rw [upTo_parts, intercalate_append _ (List.cons_ne_nil _ _), List.intercalate_singleton]
  have htext : text (xs ++ (a ++ b) :: ys) = (closed xs ++ a) ++ (b ++ ['\n'] ++ closed ys) := by
    rw [text_eq_closed h.ne_nil, closed_append, closed_cons]
    simp only [List.append_assoc]
  -- The column does not reach past the line, and the offset is a boundary.
  have hmin : min ((closed xs).byteLength + a.byteLength)
      ((closed xs).byteLength + (a ++ b).byteLength) = (closed xs ++ a).byteLength := by
    rw [Text.byteLength_append, Text.byteLength_append]
    omega
  rw [hbefore, Text.offset, Text.rowSpan_eq hspan]
  simp only [hmin]
  rw [htext]
  exact Text.isBoundary_append _ _

/-- A range reaches the end of the lines if its own end is where the last line ends. -/
theorem reachesEnd_eq {lines : List Text} {r : Range} (h : Stored lines)
    (hq : isPlace lines r.stop) :
    Selection.reachesEnd r lines.length (lines.getLast h.ne_nil) =
      decide (r.stop = endPoint lines) := by
  have hend : endPoint lines = ⟨lines.length - 1, (lines.getLast h.ne_nil).byteLength⟩ := by
    rw [endPoint, List.getLast?_eq_some_getLast h.ne_nil, Option.getD_some]
  rw [Selection.reachesEnd, hend]
  refine decide_eq_decide.mpr ⟨?_, ?_⟩
  · rintro ⟨hrow, hcolumn⟩
    rcases exists_parts_of_isPlace hq with ⟨xs, a, b, ys, rfl, hstop⟩
    rw [hstop] at hrow hcolumn ⊢
    simp only [List.length_append, List.length_cons] at hrow
    -- No line comes after the one that the range ends on.
    have hys : ys = [] := List.eq_nil_of_length_eq_zero (by omega)
    subst hys
    simp only [List.getLast_concat, Text.byteLength_append] at hcolumn ⊢
    rw [List.length_append, List.length_singleton, Nat.add_sub_cancel, Point.mk.injEq]
    exact ⟨rfl, by omega⟩
  · intro hstop
    rw [hstop]
    refine ⟨?_, Nat.le_refl _⟩
    change (lines.length : Int) ≤ (lines.length - 1 : Nat) + 1
    omega

section Buffers

variable {b : Buffer} {lines : List Text} {r : Range} (hb : b.text = text lines)
  (h : Stored lines) (hp : isPlace lines r.start) (hq : isPlace lines r.stop)
  (hle : r.start ≤ r.stop)

include hb h hp hq hle

/-- The span of a range in a buffer starts and ends where the parts of the text do. -/
theorem span_eq :
    Text.byteLength (['\n'].intercalate (upTo lines r.start)) = (b.span r).start ∧
      Text.byteLength (['\n'].intercalate (upTo lines r.start) ++ between lines r) =
        (b.span r).stop := by
  have hstart : b.text.offset r.start = _ := hb ▸ offset_text h hp
  have hstop : b.text.offset r.stop = _ := hb ▸ offset_text h hq
  rw [intercalate_upTo_stop hp hq hle, Text.byteLength_append] at hstop
  refine ⟨hstart.symm, ?_⟩
  change _ = max (b.text.offset r.stop) (b.text.offset r.start)
  rw [hstart, hstop, Text.byteLength_append]
  omega

/-- A buffer reads what an editor reads. -/
theorem textInRange_eq_between : b.textInRange r = between lines r := by
  have hspan := span_eq hb h hp hq hle
  change b.placeText (some r) = _
  exact Buffer.placeText_eq (hb.trans (text_eq_between hp hq hle)) hspan.1 hspan.2

/-- A buffer writes where an editor writes. -/
theorem text_setTextInRange (t : Text) :
    (b.setTextInRange r t).text = text (put lines r t.lines) := by
  have hspan := span_eq hb h hp hq hle
  have hset : b.setPlace (some r) t = _ :=
    Buffer.setPlace_eq t (hb.trans (text_eq_between hp hq hle)) hspan.1 hspan.2
  change b.setTextInRange r t = _ at hset
  rw [hset, text_put _ _ (stored_lines t).ne_nil, Text.lines, Text.intercalate_segments]

end Buffers

end Restyle.Neovim.Lines
