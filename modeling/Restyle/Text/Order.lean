import Restyle.Text

/-!
# The Order of Texts

Texts in the order of a dictionary.

Two texts are compared at their first difference, by the numbers of the characters there; a text comes
before any that continues it. Only the strict order is needed, to keep names sorted.

## Main definitions

* `Text.precedes`: Whether a text comes before another.

## Theorems

* `precedes_or_precedes`: Of two different texts one precedes the other.
* `precedes_trans`: The order is transitive.
-/

namespace Restyle

/-- The order of texts by their first difference. -/
def Text.precedes : Text → Text → Bool
  | _, [] => false
  | [], _ :: _ => true
  | a :: s, b :: t => decide (a.toNat < b.toNat) || (a == b && precedes s t)

/-- Of two different texts one precedes the other. -/
theorem Text.precedes_or_precedes {s t : Text} (h : s ≠ t) :
    s.precedes t = true ∨ t.precedes s = true := by
  induction s generalizing t with
  | nil => cases t <;> simp_all [precedes]
  | cons a s ih =>
    cases t with
    | nil => simp [precedes]
    | cons b t =>
      by_cases hab : a = b
      · subst hab
        have := ih (t := t) (by simpa using h)
        simpa [precedes] using this
      · have hn : a.toNat ≠ b.toNat := fun e => hab (Char.toNat_inj.mp e)
        simp only [precedes, Bool.or_eq_true, decide_eq_true_eq]
        omega

/-- The order is transitive. -/
theorem Text.precedes_trans {a b c : Text} (h : a.precedes b = true) (h' : b.precedes c = true) :
    a.precedes c = true := by
  induction a generalizing b c with
  | nil =>
    cases b with
    | nil => simp [Text.precedes] at h
    | cons b bs => cases c <;> simp_all [Text.precedes]
  | cons x a ih =>
    cases b with
    | nil => simp [Text.precedes] at h
    | cons y b =>
      cases c with
      | nil => simp [Text.precedes] at h'
      | cons z c =>
        simp only [Text.precedes, Bool.or_eq_true, decide_eq_true_eq, Bool.and_eq_true,
          beq_iff_eq] at h h' ⊢
        rcases h with h | ⟨rfl, h⟩
        · rcases h' with h' | ⟨rfl, _⟩
          · exact .inl (by omega)
          · exact .inl h
        · rcases h' with h' | ⟨rfl, h'⟩
          · exact .inl h'
          · exact .inr ⟨rfl, ih h h'⟩

end Restyle
