import Restyle.Text

/-!
# Character Boundaries

Where a text can be cut, and that a cut there is the only one of its length.

`takeBytes` and `dropBytes` cut anywhere, by stopping early, so as long as an offset is arbitrary
nothing can be said about the bytes of the two parts. At a boundary it can: the first part has
exactly that many bytes. Since every character has at least one byte, a beginning of a text is known
by its length, and so the parts that two boundaries cut out are the only ones of their lengths. All
statements about editing are made about such parts, and not about the functions that find them.

## Main definitions

* `IsBoundary`: An offset lies between two characters or at an end.

## Theorems

* `takeBytes_append`, `dropBytes_append`: Cutting behind a part gives the part and the rest.
* `isBoundary_floorBoundary`, `isBoundary_charEnd`: What is found is a boundary.
* `exists_char_of_lt`, `charEnd_append_cons`: A byte is one of a character, whose end is found from it.
* `exists_parts`: Two boundaries cut a text into three parts.
* `slice_append`, `splice_append`: Reading and replacing the part in the middle.
-/

namespace Restyle

namespace Text

/-- An offset that lies between two characters of a text, or at an end of it. -/
def IsBoundary (t : Text) (n : Nat) : Prop :=
  t.floorBoundary n = n

/-- Cutting behind a part gives the part. -/
@[simp] theorem takeBytes_append (a b : Text) : takeBytes (a ++ b) (byteLength a) = a := by
  induction a with
  | nil =>
      cases b with
      | nil => rfl
      | cons c b => simp only [List.nil_append, byteLength, takeBytes, c.utf8Size_pos, if_true]
  | cons c a ih =>
      rw [List.cons_append, byteLength, takeBytes, if_neg (by omega), Nat.add_sub_cancel_left, ih]

/-- Cutting behind a part leaves the rest. -/
@[simp] theorem dropBytes_append (a b : Text) : dropBytes (a ++ b) (byteLength a) = b := by
  have h := takeBytes_append_dropBytes (a ++ b) (byteLength a)
  rw [takeBytes_append] at h
  exact List.append_cancel_left h

/-- The end of a part is a boundary. -/
theorem isBoundary_append (a b : Text) : IsBoundary (a ++ b) (byteLength a) := by
  unfold IsBoundary
  rw [← byteLength_takeBytes, takeBytes_append]

theorem isBoundary_zero (t : Text) : IsBoundary t 0 :=
  isBoundary_append [] t

theorem isBoundary_byteLength (t : Text) : IsBoundary t t.byteLength := by
  have h := isBoundary_append t []
  rwa [List.append_nil] at h

/-- What is found is a boundary: it is the end of the part that the cut leaves in front. -/
theorem isBoundary_floorBoundary (t : Text) (n : Nat) : t.IsBoundary (t.floorBoundary n) := by
  have h := isBoundary_append (t.takeBytes n) (t.dropBytes n)
  rwa [takeBytes_append_dropBytes, byteLength_takeBytes] at h

/-- The end of a character is a boundary. -/
theorem isBoundary_charEnd (t : Text) (n : Nat) : t.IsBoundary (t.charEnd n) := by
  induction t generalizing n with
  | nil => rfl
  | cons c t ih =>
      unfold IsBoundary charEnd
      by_cases h : n < c.utf8Size
      · rw [if_pos h, floorBoundary, if_neg (Nat.lt_irrefl _), Nat.sub_self]
        exact congrArg (c.utf8Size + ·) (isBoundary_zero t)
      · rw [if_neg h, floorBoundary, if_neg (by omega), Nat.add_sub_cancel_left]
        exact congrArg (c.utf8Size + ·) (ih _)

/-- A boundary cuts a text in two. -/
theorem exists_halves {t : Text} {n : Nat} (h : t.IsBoundary n) :
    ∃ a b, t = a ++ b ∧ byteLength a = n :=
  ⟨t.takeBytes n, t.dropBytes n, (takeBytes_append_dropBytes t n).symm,
    (byteLength_takeBytes t n).trans h⟩

/-- A boundary is not past the end. -/
theorem IsBoundary.le {t : Text} {n : Nat} (h : t.IsBoundary n) : n ≤ t.byteLength := by
  rcases exists_halves h with ⟨a, b, rfl, rfl⟩
  rw [byteLength_append]
  exact Nat.le_add_right _ _

/-- A byte of a text is one of a character. -/
theorem exists_char_of_lt {t : Text} {n : Nat} (h : n < t.byteLength) :
    ∃ a c b, t = a ++ c :: b ∧ byteLength a ≤ n ∧ n < byteLength a + c.utf8Size := by
  induction t generalizing n with
  | nil => exact absurd h (Nat.not_lt_zero _)
  | cons c t ih =>
      rw [byteLength] at h
      by_cases hc : n < c.utf8Size
      · exact ⟨[], c, t, rfl, Nat.zero_le _, by rwa [byteLength, Nat.zero_add]⟩
      · rcases ih (n := n - c.utf8Size) (by omega) with ⟨a, d, b, rfl, hle, hlt⟩
        refine ⟨c :: a, d, b, rfl, ?_, ?_⟩ <;> rw [byteLength] <;> omega

/-- The end of a character is found from each of its bytes. -/
theorem charEnd_append_cons {a b : Text} {c : Char} {n : Nat} (hle : byteLength a ≤ n)
    (hlt : n < byteLength a + c.utf8Size) :
    charEnd (a ++ c :: b) n = byteLength a + c.utf8Size := by
  induction a generalizing n with
  | nil =>
      rw [byteLength, Nat.zero_add] at hlt ⊢
      rw [List.nil_append, charEnd, if_pos hlt]
  | cons d a ih =>
      rw [byteLength] at hle hlt ⊢
      rw [List.cons_append, charEnd, if_neg (by omega), ih (by omega) (by omega), Nat.add_assoc]

/-- Past its end a text ends. -/
theorem charEnd_of_byteLength_le {t : Text} {n : Nat} (h : t.byteLength ≤ n) :
    charEnd t n = t.byteLength := by
  induction t generalizing n with
  | nil => rfl
  | cons c t ih =>
      rw [byteLength] at h ⊢
      rw [charEnd, if_neg (by omega), ih (by omega)]

/-- A text without bytes has no characters. -/
theorem eq_nil_of_byteLength {t : Text} (h : t.byteLength = 0) : t = [] := by
  cases t with
  | nil => rfl
  | cons c t =>
      have hpos := c.utf8Size_pos
      rw [byteLength] at h
      omega

/-- Of two beginnings of a text the shorter is a beginning of the longer. -/
theorem exists_append_of_byteLength_le {a b c d : Text} (h : a ++ b = c ++ d)
    (hle : byteLength a ≤ byteLength c) : ∃ e, c = a ++ e ∧ b = e ++ d := by
  rcases List.append_eq_append_iff.mp h with ⟨e, hc, hb⟩ | ⟨e, ha, hd⟩
  · exact ⟨e, hc, hb⟩
  · -- The longer one ends first only if the rest has no bytes.
    have he : e = [] := by
      rw [ha, byteLength_append] at hle
      exact eq_nil_of_byteLength (by omega)
    subst he
    exact ⟨[], by simpa using ha.symm, by simpa using hd.symm⟩

/-- Two boundaries cut a text into three parts. -/
theorem exists_parts {t : Text} {s e : Nat} (hs : t.IsBoundary s) (he : t.IsBoundary e)
    (hle : s ≤ e) : ∃ a b c, t = a ++ b ++ c ∧ byteLength a = s ∧ byteLength (a ++ b) = e := by
  rcases exists_halves hs with ⟨a, bc, hta, hal⟩
  rcases exists_halves he with ⟨ab, c, htc, hcl⟩
  rcases exists_append_of_byteLength_le (hta.symm.trans htc) (by omega) with ⟨b, hab, -⟩
  exact ⟨a, b, c, by rw [htc, hab], hal, by rw [← hab, hcl]⟩

/-- The part in the middle is what lies between its ends. -/
theorem slice_append (a b c : Text) :
    slice (a ++ b ++ c) (byteLength a) (byteLength (a ++ b)) = b := by
  rw [slice, takeBytes_append, dropBytes_append]

/-- Replacing what lies between the ends of the part in the middle replaces the part. -/
theorem splice_append (a b c r : Text) :
    splice (a ++ b ++ c) (byteLength a) (byteLength (a ++ b)) r = a ++ r ++ c := by
  rw [splice, dropBytes_append, List.append_assoc a b c, takeBytes_append]

end Text

end Restyle
