import Restyle.Memory.Buffer
import Restyle.Proofs.Position

/-!
# Places in a Buffer

The part of a buffer that a run is for, and what replacing it does to the rest.

Which part that is depends on the selection. It has to be asked for, has to start before it ends, and
has to hold text once both its ends were brought into the text; otherwise the part is the whole text.
`workPlace` and `workSpan` say this without a run.

A place is a range, or none for the whole text, as in what a run remembers of what it has read. Both
ends of its span are boundaries, so the text falls into what stands before the part, the part, and what
stands behind it, and there is only one way to do so. Reading a place gives the part. Replacing it
leaves the other two as they are.

## Main definitions

* `workPlace`: The selection, if a run is for it.
* `placeSpan`, `workSpan`: The span of a place, and of the one that a run is for.
* `placeText`, `setPlace`: Reading and replacing a place.
* `settle`: The buffer that a run on a place leaves.

## Theorems

* `file_settle`: A run leaves alone what belongs to the file.
* `exists_placeParts`: The span of a place cuts the text into three parts.
* `placeText_eq`: The text of a place is the part in the middle.
* `setPlace_eq`: Replacing a place replaces the part in the middle.
* `textInRange_eq_nil_iff`: A range holds text if its span does.
* `settle_eq`: A run changes the part in the middle, the cursor and the selection.
-/

namespace Restyle

namespace Buffer

/-- The selection, if a run is for it: it starts before it ends, and there is text in it. -/
def workPlace (b : Buffer) (selectionOnly : Bool) : Option Range :=
  (if selectionOnly then b.selection else none).filter fun r =>
    r.start.order r.stop = .lt ∧ (b.span r).start < (b.span r).stop

/-- The span of a place, and that of the whole text for none. -/
def placeSpan (b : Buffer) : Option Range → Span
  | some r => b.span r
  | none => ⟨0, b.text.byteLength⟩

/-- The span of the text that a run is for. -/
def workSpan (b : Buffer) (selectionOnly : Bool) : Span :=
  b.placeSpan (b.workPlace selectionOnly)

/-- The text of a place. -/
def placeText (b : Buffer) (place : Option Range) : Text :=
  b.text.slice (b.placeSpan place).start (b.placeSpan place).stop

/-- The buffer after the text of a place was replaced. -/
def setPlace (b : Buffer) (place : Option Range) (t : Text) : Buffer :=
  match place with
  | some r => b.setTextInRange r t
  | none => b.setText t

/-- The buffer after a run on a place, with the pipeline's result if there is one. -/
def settle (b : Buffer) (place : Option Range) (result : Option Text) : Buffer :=
  (if result.getD (b.placeText place) = b.placeText place then b
    else b.setPlace place (result.getD (b.placeText place))).setCursor b.cursor

/-- A run leaves alone what belongs to the file behind a buffer. -/
theorem file_settle (b : Buffer) (place : Option Range) (result : Option Text) :
    (b.settle place result).path = b.path ∧ (b.settle place result).scope = b.scope ∧
      (b.settle place result).saved = b.saved := by
  unfold settle
  split
  · exact ⟨rfl, rfl, rfl⟩
  · cases place with
    | none => exact ⟨rfl, rfl, rfl⟩
    | some r => exact ⟨rfl, rfl, rfl⟩

/-- The span of a place cuts the text into three parts. -/
theorem exists_placeParts (b : Buffer) (place : Option Range) :
    ∃ before piece behind, b.text = before ++ piece ++ behind ∧
      before.byteLength = (b.placeSpan place).start ∧
      (before ++ piece).byteLength = (b.placeSpan place).stop := by
  cases place with
  | none =>
      exact Text.exists_parts (Text.isBoundary_zero _) (Text.isBoundary_byteLength _)
        (Nat.zero_le _)
  | some r =>
      have hstart := Text.isBoundary_offset b.text r.start
      refine Text.exists_parts hstart ?_ (Nat.le_max_right _ _)
      -- The span ends at one of the two offsets.
      change b.text.IsBoundary (max (b.text.offset r.stop) (b.text.offset r.start))
      rcases Nat.le_total (b.text.offset r.stop) (b.text.offset r.start) with h | h
      · rwa [Nat.max_eq_right h]
      · rw [Nat.max_eq_left h]
        exact Text.isBoundary_offset b.text r.stop

/-- The text of a place is the part in the middle. -/
theorem placeText_eq {b : Buffer} {place : Option Range} {before piece behind : Text}
    (ht : b.text = before ++ piece ++ behind)
    (hs : before.byteLength = (b.placeSpan place).start)
    (he : (before ++ piece).byteLength = (b.placeSpan place).stop) :
    b.placeText place = piece := by
  rw [placeText, ← hs, ← he, ht, Text.slice_append]

/-- Replacing the text of a place replaces the part in the middle and clears the selection. -/
theorem setPlace_eq {b : Buffer} {place : Option Range} {before piece behind : Text} (t : Text)
    (ht : b.text = before ++ piece ++ behind)
    (hs : before.byteLength = (b.placeSpan place).start)
    (he : (before ++ piece).byteLength = (b.placeSpan place).stop) :
    b.setPlace place t = { b with text := before ++ t ++ behind, selection := none } := by
  cases place with
  | some r =>
      change before.byteLength = (b.span r).start at hs
      change (before ++ piece).byteLength = (b.span r).stop at he
      rw [setPlace, setTextInRange, ← hs, ← he, ht, Text.splice_append]
  | none =>
      -- The whole text has nothing before it, and nothing behind it either.
      have hbefore : before = [] := Text.eq_nil_of_byteLength hs
      have hbehind : behind = [] := by
        refine Text.eq_nil_of_byteLength ?_
        change _ = b.text.byteLength at he
        rw [ht, Text.byteLength_append _ behind] at he
        omega
      rw [setPlace, setText, hbefore, hbehind, List.nil_append, List.append_nil]

/-- A range holds text if its span does. -/
theorem textInRange_eq_nil_iff (b : Buffer) (r : Range) :
    b.textInRange r = [] ↔ ¬ (b.span r).start < (b.span r).stop := by
  rcases b.exists_placeParts (some r) with ⟨before, piece, behind, ht, hs, he⟩
  have hpiece : b.textInRange r = piece := placeText_eq ht hs he
  change before.byteLength = (b.span r).start at hs
  change (before ++ piece).byteLength = (b.span r).stop at he
  rw [hpiece, ← hs, ← he, Text.byteLength_append]
  constructor
  · intro hnil
    rw [hnil, Text.byteLength]
    omega
  · intro hlt
    exact Text.eq_nil_of_byteLength (by omega)

theorem placeText_none (b : Buffer) : b.placeText none = b.text := by
  have h := Text.slice_append [] b.text []
  rwa [List.append_nil, List.nil_append] at h

/-- A run on a place changes the part in the middle, the cursor and the selection, and nothing else. -/
theorem settle_eq {b : Buffer} {place : Option Range} {before piece behind : Text}
    (result : Option Text) (ht : b.text = before ++ piece ++ behind)
    (hs : before.byteLength = (b.placeSpan place).start)
    (he : (before ++ piece).byteLength = (b.placeSpan place).stop) :
    b.settle place result =
      { b with
        text := before ++ result.getD piece ++ behind
        cursor := (before ++ result.getD piece ++ behind).clamp b.cursor
        selection := if result.getD piece = piece then b.selection else none } := by
  unfold settle
  rw [placeText_eq ht hs he]
  by_cases h : result.getD piece = piece
  · rw [if_pos h, if_pos h, h, ← ht]
    rfl
  · rw [if_neg h, if_neg h, setPlace_eq (result.getD piece) ht hs he]
    rfl

end Buffer

end Restyle
