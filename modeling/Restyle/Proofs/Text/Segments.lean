import Restyle.Text

/-!
# Segments and Separators

Splitting a text, and joining what is free of separators.

Splitting and then joining gives every text back. The other way around it only does so if no part holds
a separator, and there has to be a part, since splitting always gives one. Both are proved along the
first part: up to its separator nothing is split, and what comes after is split on its own.

## Theorems

* `segments_of_not_mem`: A text without separators is its only segment.
* `segments_append`: The first segment ends at the first separator.
* `segments_append_cons`: Splitting goes on behind every separator.
* `exists_segments_append`: Where two texts meet, two segments become one.
* `segments_intercalate`: Splitting undoes joining.
* `not_mem_of_mem_segments`: No segment holds a separator.
* `intercalate_append`: Joining goes on after the separator behind each part.
* `intercalate_append_cons`: A part of two pieces may be joined to the rest by its second piece.
-/

namespace Restyle

namespace Text

variable {sep : Char}

theorem segments_ne_nil (t : Text) : segments sep t ≠ [] :=
  List.cons_ne_nil _ _

theorem segments_cons_self (t : Text) : segments sep (sep :: t) = [] :: segments sep t := by
  simp only [segments, splitSegments, if_true]

theorem segments_cons_of_ne {c : Char} (h : c ≠ sep) (t : Text) :
    segments sep (c :: t) = (c :: (splitSegments sep t).1) :: (splitSegments sep t).2 := by
  simp only [segments, splitSegments, if_neg h]

/-- A text without separators is its only segment. -/
theorem segments_of_not_mem {t : Text} (h : sep ∉ t) : segments sep t = [t] := by
  induction t with
  | nil => rfl
  | cons c t ih =>
      rw [List.mem_cons, not_or] at h
      have hrest := ih h.2
      rw [segments, List.cons.injEq] at hrest
      rw [segments_cons_of_ne (Ne.symm h.1), hrest.1, hrest.2]

/-- The first segment ends at the first separator. -/
theorem segments_append {a : Text} (h : sep ∉ a) (b : Text) :
    segments sep (a ++ sep :: b) = a :: segments sep b := by
  induction a with
  | nil => exact segments_cons_self b
  | cons c a ih =>
      rw [List.mem_cons, not_or] at h
      have hrest := ih h.2
      rw [segments, List.cons.injEq] at hrest
      rw [List.cons_append, segments_cons_of_ne (Ne.symm h.1), hrest.1, hrest.2]

/-- Splitting goes on behind every separator, wherever it stands. -/
theorem segments_append_cons (a b : Text) :
    segments sep (a ++ sep :: b) = segments sep a ++ segments sep b := by
  induction a with
  | nil => exact segments_cons_self b
  | cons c a ih =>
      by_cases hc : c = sep
      · rw [hc, List.cons_append, segments_cons_self, segments_cons_self, ih, List.cons_append]
      · rw [segments, segments, List.cons_append, List.cons.injEq] at ih
        rw [List.cons_append, segments_cons_of_ne hc, segments_cons_of_ne hc, ih.1, ih.2,
          List.cons_append]

/-- Where two texts meet, the last segment of the one and the first of the other become one. -/
theorem exists_segments_append (a b : Text) :
    ∃ xs x y ys, segments sep a = xs ++ [x] ∧ segments sep b = y :: ys ∧
      segments sep (a ++ b) = xs ++ (x ++ y) :: ys := by
  induction a with
  | nil => exact ⟨[], [], _, _, rfl, rfl, rfl⟩
  | cons c a ih =>
      rcases ih with ⟨xs, x, y, ys, ha, hb, hab⟩
      by_cases hc : c = sep
      · refine ⟨[] :: xs, x, y, ys, ?_, hb, ?_⟩
        · rw [hc, segments_cons_self, ha, List.cons_append]
        · rw [hc, List.cons_append, segments_cons_self, hab, List.cons_append]
      · -- The character goes to the first segment, which is the joined one if there is no other.
        have hfirst : ∀ t, segments sep (c :: t) = (segments sep t).modifyHead (c :: ·) :=
          segments_cons_of_ne hc
        cases xs with
        | nil =>
            refine ⟨[], c :: x, y, ys, ?_, hb, ?_⟩
            · rw [hfirst, ha, List.nil_append, List.modifyHead_cons, List.nil_append]
            · rw [List.cons_append, hfirst, hab, List.nil_append, List.modifyHead_cons,
                List.nil_append, List.cons_append]
        | cons z xs =>
            refine ⟨(c :: z) :: xs, x, y, ys, ?_, hb, ?_⟩
            · rw [hfirst, ha, List.cons_append, List.modifyHead_cons, List.cons_append]
            · rw [List.cons_append, hfirst, hab, List.cons_append, List.modifyHead_cons,
                List.cons_append]

/-- Joining goes on behind a separator. -/
theorem intercalate_append_of_ne_nil {xs ys : List Text} (hx : xs ≠ []) (hy : ys ≠ []) :
    [sep].intercalate (xs ++ ys) = [sep].intercalate xs ++ sep :: [sep].intercalate ys := by
  induction xs with
  | nil => exact absurd rfl hx
  | cons x xs ih =>
      cases xs with
      | nil =>
          rw [List.singleton_append, List.intercalate_cons_of_ne_nil hy,
            List.intercalate_singleton, List.append_assoc, List.singleton_append]
      | cons y xs =>
          rw [List.cons_append, List.cons_append, List.intercalate_cons_cons,
            ← List.cons_append, ih (List.cons_ne_nil _ _), List.intercalate_cons_cons,
            List.append_assoc, List.append_assoc, List.append_assoc]

/-- Splitting undoes joining, if there is something to join and no separator in it. -/
theorem segments_intercalate {parts : List Text} (hne : parts ≠ [])
    (h : ∀ p ∈ parts, sep ∉ p) : segments sep ([sep].intercalate parts) = parts := by
  induction parts with
  | nil => exact absurd rfl hne
  | cons p parts ih =>
      have hp := h p List.mem_cons_self
      cases parts with
      | nil => rw [List.intercalate_singleton, segments_of_not_mem hp]
      | cons q parts =>
          have hrest := ih (List.cons_ne_nil _ _) fun r hr => h r (List.mem_cons_of_mem _ hr)
          rw [List.intercalate_cons_cons, List.append_assoc, List.singleton_append,
            segments_append hp, hrest]

/-- No segment holds a separator. -/
theorem not_mem_of_mem_segments {t s : Text} (h : s ∈ segments sep t) : sep ∉ s := by
  induction t generalizing s with
  | nil =>
      rw [List.mem_singleton.mp h]
      exact List.not_mem_nil
  | cons c t ih =>
      by_cases hc : c = sep
      · rw [hc, segments_cons_self] at h
        rcases List.mem_cons.mp h with rfl | h
        · exact List.not_mem_nil
        · exact ih h
      · rw [segments_cons_of_ne hc] at h
        rcases List.mem_cons.mp h with rfl | h
        · -- The first segment is the one that the character stands in.
          have hfirst := ih (s := (splitSegments sep t).1) List.mem_cons_self
          rw [List.mem_cons, not_or]
          exact ⟨Ne.symm hc, hfirst⟩
        · exact ih (List.mem_cons_of_mem _ h)

section Joining

variable {α : Type} {mark : α}

/-- Joining goes on after the separator behind each part. -/
theorem intercalate_append (xs : List (List α)) {ys : List (List α)} (h : ys ≠ []) :
    [mark].intercalate (xs ++ ys) = xs.flatMap (· ++ [mark]) ++ [mark].intercalate ys := by
  induction xs with
  | nil => rfl
  | cons x xs ih =>
      have hne : xs ++ ys ≠ [] := List.append_ne_nil_of_right_ne_nil xs h
      rw [List.cons_append, List.intercalate_cons_of_ne_nil hne, ih, List.flatMap_cons,
        List.append_assoc (x ++ [mark])]

/-- A part of two pieces may be joined to the rest by its second piece. -/
theorem intercalate_append_cons (a b : List α) (parts : List (List α)) :
    [mark].intercalate ((a ++ b) :: parts) = a ++ [mark].intercalate (b :: parts) := by
  cases parts with
  | nil => rw [List.intercalate_singleton, List.intercalate_singleton]
  | cons p parts =>
      rw [List.intercalate_cons_cons, List.intercalate_cons_cons, List.append_assoc,
        List.append_assoc, List.append_assoc]

end Joining

end Text

end Restyle
