import Mathlib.Data.List.TakeDrop
import Restyle.Neovim.Lines
import Restyle.Proofs.Text.Segments

/-!
# Lines and the Text They Stand For

Joining lines, and putting lists of lines together.

An editor keeps lines without newlines, and at least one. Two lists of such lines are put together
where a text is put into the middle of another: the last line of the first and the first line of the
second become one, since there is no newline between them. `weld` does this without joining or
splitting anything, and joining takes it to appending. That is the whole relation between what an editor
does with lines and what happens to the text that they stand for.

## Main definitions

* `Stored`: Lines as an editor keeps them.
* `closed`: Lines, each with its newline.
* `weld`: Two lists of lines, put together in the middle of a line.
* `lineAt`: The line of a row.

## Theorems

* `intercalate_append`: Joining goes on after the newline of a line.
* `text_eq_closed`: The text that lines stand for is that of the lines with their newlines.
* `lines_text`: The lines of that text.
* `intercalate_weld`: Joining takes putting together to appending.
* `Stored.weld`, `stored_lines`: Lines as an editor keeps them stay so.
-/

namespace Restyle.Neovim.Lines

/-- Lines as an editor keeps them: at least one, and no newline in any. -/
structure Stored (lines : List Text) : Prop where
  ne_nil : lines ≠ []
  no_newline : ∀ line ∈ lines, '\n' ∉ line

/-- Lines, each with its newline. -/
def closed (lines : List Text) : Text :=
  lines.flatMap (· ++ ['\n'])

/-- Two lists of lines, put together in the middle of a line. -/
def weld (xs ys : List Text) : List Text :=
  xs.dropLast ++ (xs.getLast?.getD [] ++ ys.head?.getD []) :: ys.tail

/-- The line of a row; one without a line reads as empty. -/
def lineAt (lines : List Text) (row : Int) : Text :=
  (rows lines row (row + 1)).getLast?.getD []

theorem closed_append (xs ys : List Text) : closed (xs ++ ys) = closed xs ++ closed ys :=
  List.flatMap_append

theorem closed_cons (x : Text) (xs : List Text) : closed (x :: xs) = x ++ ['\n'] ++ closed xs :=
  rfl

theorem closed_singleton (x : Text) : closed [x] = x ++ ['\n'] :=
  List.append_nil _

/-- Joining goes on after the newline of a line. -/
theorem intercalate_append (xs : List Text) {ys : List Text} (h : ys ≠ []) :
    ['\n'].intercalate (xs ++ ys) = closed xs ++ ['\n'].intercalate ys :=
  Text.intercalate_append xs h

/-- The text that lines stand for is that of the lines with their newlines. -/
theorem text_eq_closed {lines : List Text} (h : lines ≠ []) : text lines = closed lines := by
  rw [text, ← List.dropLast_concat_getLast h, intercalate_append _ (List.cons_ne_nil _ _),
    List.intercalate_singleton, closed_append, closed_singleton, List.append_assoc]

/-- Only the lines at the seam are changed. -/
theorem weld_concat_cons (us : List Text) (x y : Text) (vs : List Text) :
    weld (us ++ [x]) (y :: vs) = us ++ (x ++ y) :: vs := by
  rw [weld, List.dropLast_concat, List.getLast?_concat]
  rfl

theorem Stored.exists_concat {lines : List Text} (h : Stored lines) :
    ∃ us x, lines = us ++ [x] :=
  ⟨_, _, (List.dropLast_concat_getLast h.ne_nil).symm⟩

/-- Joining takes putting together to appending. -/
theorem intercalate_weld {xs ys : List Text} (hx : xs ≠ []) (hy : ys ≠ []) :
    ['\n'].intercalate (weld xs ys) = ['\n'].intercalate xs ++ ['\n'].intercalate ys := by
  rcases List.exists_cons_of_ne_nil hy with ⟨y, vs, rfl⟩
  -- Both sides are the lines before the seam with their newlines, and then the joined rest.
  rw [← List.dropLast_concat_getLast hx, weld_concat_cons,
    intercalate_append _ (List.cons_ne_nil _ _), intercalate_append _ (List.cons_ne_nil _ _),
    Text.intercalate_append_cons, List.intercalate_singleton, List.append_assoc]

theorem stored_lines (t : Text) : Stored t.lines :=
  ⟨Text.segments_ne_nil t, fun _ => Text.not_mem_of_mem_segments⟩

/-- Joining and splitting gives back lines that an editor keeps. -/
theorem lines_intercalate {lines : List Text} (h : Stored lines) :
    Text.lines (['\n'].intercalate lines) = lines :=
  Text.segments_intercalate h.ne_nil h.no_newline

/-- Lines that an editor keeps are known by the text that they stand for. -/
theorem Stored.eq_of_text_eq {xs ys : List Text} (hx : Stored xs) (hy : Stored ys)
    (h : text xs = text ys) : xs = ys := by
  have hjoined : ['\n'].intercalate xs = ['\n'].intercalate ys := List.append_cancel_right h
  rw [← lines_intercalate hx, ← lines_intercalate hy, hjoined]

/-- Behind its last newline the text that lines stand for has an empty line. -/
theorem lines_text {lines : List Text} (h : Stored lines) :
    (text lines).lines = lines ++ [[]] := by
  have hstored : Stored (lines ++ [[]]) := by
    refine ⟨List.append_ne_nil_of_left_ne_nil h.ne_nil _, ?_⟩
    intro line hline
    rcases List.mem_append.mp hline with hline | hline
    · exact h.no_newline line hline
    · rw [List.mem_singleton.mp hline]
      exact List.not_mem_nil
  rw [text_eq_closed h.ne_nil, ← lines_intercalate hstored,
    intercalate_append _ (List.cons_ne_nil _ _), List.intercalate_singleton, List.append_nil]

theorem rows_all (lines : List Text) : rows lines 0 (-1) = lines := by
  have hlast : row lines.length (-1) = lines.length := by
    unfold row
    omega
  have hfirst : row lines.length 0 = 0 := by
    unfold row
    omega
  rw [rows, hlast, hfirst, List.take_length, List.drop_zero]

theorem lineAt_natCast {lines : List Text} {n : Nat} (h : n < lines.length) :
    lineAt lines n = lines[n] := by
  have hlast : row lines.length ((n : Int) + 1) = n + 1 := by
    unfold row
    omega
  have hfirst : row lines.length (n : Int) = n := by
    unfold row
    omega
  rw [lineAt, rows, hlast, hfirst, List.drop_take, Nat.add_sub_cancel_left,
    List.drop_eq_getElem_cons h, List.take_succ_cons, List.take_zero, List.getLast?_singleton,
    Option.getD_some]

theorem lineAt_last {lines : List Text} (h : lines ≠ []) :
    lineAt lines ((lines.length : Int) - 1) = lines.getLast h := by
  have hpos := List.length_pos_iff.mpr h
  have hrow : (lines.length : Int) - 1 = (lines.length - 1 : Nat) := by omega
  rw [hrow, lineAt_natCast (by omega), List.getLast_eq_getElem]

/-- Lines that are put together are kept as they are. -/
theorem Stored.weld {xs ys : List Text} (hx : Stored xs) (hy : Stored ys) :
    Stored (weld xs ys) := by
  rcases hx.exists_concat with ⟨us, x, rfl⟩
  rcases List.exists_cons_of_ne_nil hy.ne_nil with ⟨y, vs, rfl⟩
  rw [weld_concat_cons]
  refine ⟨List.append_ne_nil_of_right_ne_nil us (List.cons_ne_nil _ _), ?_⟩
  intro line hline
  rcases List.mem_append.mp hline with h | h
  · exact hx.no_newline line (List.mem_append_left _ h)
  · rcases List.mem_cons.mp h with rfl | h
    · -- The line at the seam consists of one line of each list.
      rw [List.mem_append, not_or]
      exact ⟨hx.no_newline x List.mem_concat_self, hy.no_newline y List.mem_cons_self⟩
    · exact hy.no_newline line (List.mem_cons_of_mem _ h)

end Restyle.Neovim.Lines
