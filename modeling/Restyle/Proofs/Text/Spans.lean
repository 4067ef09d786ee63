import Mathlib.Data.List.Chain
import Restyle.Position
import Restyle.Proofs.Text.Boundary
import Restyle.Proofs.Text.Segments

/-!
# Spans of Parts

Where the parts lie that a text was split into.

The parts of a text between separators are numbered, and an offset belongs to one of them, so a place in
the text can be given by the number of a part and an offset in it. `spansFrom` is the table that leads
from one to the other. It counts one byte for a separator, and all that is said here holds for
separators of one byte, as newlines and commas are.

The table is written from the first part to the last, and so are the proofs: the spans of the rest are
those of a text that starts behind the first separator.

## Main definitions

* `ended`: Lines, each with its newline.

## Theorems

* `exists_linePieces`: A boundary on a line takes the lines apart.
* `slices_spansFrom`: What lies between the ends of the spans are the parts.
* `isChain_spansFrom`: Each span starts one byte behind the end of the one before it.
* `pairwise_spansFrom`: Spans do not overlap.
* `getElem?_spansFrom`: The span of a line, from the lines before it.
-/

namespace Restyle.Text

/-- A boundary on a line takes the lines apart: into those before it, the two pieces of its own, and
    those behind. -/
theorem exists_linePieces {lines : List Text} {row column : Nat} {line : Text}
    (hline : lines[row]? = some line) (hcolumn : line.IsBoundary column) :
    ∃ xs a b ys, lines = xs ++ (a ++ b) :: ys ∧ row = xs.length ∧ column = byteLength a := by
  rcases exists_halves hcolumn with ⟨a, b, rfl, hlength⟩
  rcases List.getElem?_eq_some_iff.mp hline with ⟨hlt, hget⟩
  refine ⟨lines.take row, a, b, lines.drop (row + 1), ?_, ?_, hlength.symm⟩
  · rw [← hget, ← List.drop_eq_getElem_cons hlt, List.take_append_drop]
  · rw [List.length_take, Nat.min_eq_left (Nat.le_of_lt hlt)]

/-- Lines, each with the newline that ends it. -/
def ended (lines : List Text) : Text :=
  lines.flatMap (· ++ ['\n'])

/-- Joining goes on behind lines that have ended. -/
theorem intercalate_append_ended (xs : List Text) {ys : List Text} (h : ys ≠ []) :
    ['\n'].intercalate (xs ++ ys) = ended xs ++ ['\n'].intercalate ys :=
  intercalate_append xs h

variable {sep : Char}

/-- What lies between the ends of the spans are the parts, wherever the joined parts stand. -/
theorem slices_spansFrom (hsep : sep.utf8Size = 1) (u v : Text) (parts : List Text) :
    ((spansFrom u.byteLength parts).map fun s =>
      slice (u ++ [sep].intercalate parts ++ v) s.start s.stop) = parts := by
  induction parts generalizing u with
  | nil => rfl
  | cons a parts ih =>
      cases parts with
      | nil =>
          rw [spansFrom, spansFrom, List.map_singleton, List.intercalate_singleton,
            ← byteLength_append, slice_append]
      | cons b parts =>
          have hjoined : u ++ [sep].intercalate (a :: b :: parts) ++ v =
              u ++ a ++ [sep] ++ [sep].intercalate (b :: parts) ++ v := by
            rw [List.intercalate_cons_cons]
            simp only [List.append_assoc]
          have hfirst : slice (u ++ a ++ [sep] ++ [sep].intercalate (b :: parts) ++ v)
              u.byteLength (u ++ a).byteLength = a := by
            rw [List.append_assoc, List.append_assoc (u ++ a)]
            exact slice_append u a _
          have hplace : u.byteLength + a.byteLength + 1 = byteLength (u ++ a ++ [sep]) := by
            rw [byteLength_append, byteLength_append, byteLength, byteLength, hsep]
          rw [spansFrom, List.map_cons, hjoined, ← byteLength_append, hfirst, byteLength_append,
            hplace, ih (u ++ a ++ [sep])]

@[simp] theorem length_spansFrom (n : Nat) (parts : List Text) :
    (spansFrom n parts).length = parts.length := by
  induction parts generalizing n with
  | nil => rfl
  | cons a parts ih => rw [spansFrom, List.length_cons, List.length_cons, ih]

/-- No span starts before the first, and none ends before it starts. -/
theorem le_of_mem_spansFrom {n : Nat} {parts : List Text} {s : Span}
    (h : s ∈ spansFrom n parts) : n ≤ s.start ∧ s.start ≤ s.stop := by
  induction parts generalizing n with
  | nil => exact absurd h List.not_mem_nil
  | cons a parts ih =>
      rcases List.mem_cons.mp h with rfl | hmem
      · exact ⟨Nat.le_refl n, Nat.le_add_right n a.byteLength⟩
      · rcases ih hmem with ⟨hstart, hstop⟩
        exact ⟨by omega, hstop⟩

/-- Each span starts one byte behind the end of the one before it. -/
theorem isChain_spansFrom (n : Nat) (parts : List Text) :
    (spansFrom n parts).IsChain fun s s' => s'.start = s.stop + 1 := by
  induction parts generalizing n with
  | nil => exact .nil
  | cons a parts ih =>
      cases parts with
      | nil => exact .singleton _
      | cons b parts => exact .cons_cons rfl (ih _)

/-- A span ends before all that come later start. -/
theorem pairwise_spansFrom (n : Nat) (parts : List Text) :
    (spansFrom n parts).Pairwise fun s s' => s.stop < s'.start := by
  induction parts generalizing n with
  | nil => exact .nil
  | cons a parts ih =>
      refine .cons (fun s' hs' => ?_) (ih _)
      exact Nat.lt_of_succ_le (le_of_mem_spansFrom hs').1

/-- The last span ends where the joined parts do. -/
theorem getLast?_spansFrom (hsep : sep.utf8Size = 1) (n : Nat) {parts : List Text}
    (hne : parts ≠ []) :
    (spansFrom n parts).getLast?.map Span.stop = some (n + byteLength ([sep].intercalate parts)) := by
  induction parts generalizing n with
  | nil => exact absurd rfl hne
  | cons a parts ih =>
      cases parts with
      | nil => simp only [spansFrom, List.getLast?_singleton, Option.map_some, List.intercalate_singleton]
      | cons b parts =>
          have hlength : byteLength ([sep].intercalate (a :: b :: parts)) =
              a.byteLength + 1 + byteLength ([sep].intercalate (b :: parts)) := by
            rw [List.intercalate_cons_cons, byteLength_append, byteLength_append, byteLength,
              byteLength, hsep]
          have hrest := ih (n + a.byteLength + 1) (List.cons_ne_nil b parts)
          rw [spansFrom] at hrest
          rw [spansFrom, spansFrom, List.getLast?_cons_cons, hrest, hlength]
          simp only [Nat.add_assoc]

/-- A line starts behind those before it, each with its newline. -/
theorem getElem?_spansFrom (n : Nat) (xs : List Text) (line : Text) (ys : List Text) :
    (spansFrom n (xs ++ line :: ys))[xs.length]? =
      some ⟨n + (ended xs).byteLength, n + (ended xs).byteLength + line.byteLength⟩ := by
  induction xs generalizing n with
  | nil => rfl
  | cons x xs ih =>
      have hended : (ended (x :: xs)).byteLength = x.byteLength + 1 + (ended xs).byteLength := by
        rw [ended, List.flatMap_cons, byteLength_append, byteLength_append]
        rfl
      rw [List.cons_append, spansFrom, List.length_cons, List.getElem?_cons_succ, ih, hended]
      simp only [Nat.add_assoc]

end Restyle.Text
