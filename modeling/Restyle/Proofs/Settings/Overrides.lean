import Restyle.Settings

/-!
# Overrides of a Scope

Who decides whether a document is formatted when it is saved.

The overrides are looked up by a search that stops at the first entry with the name. The entries are
sorted by name and no name comes twice, so there is no first one to speak of: an entry is found if and
only if it is there. With that, the answer of the settings can be said without a search. The scope
decides if it has an entry that decides, and the general setting decides otherwise.

## Main definitions

* `Settings.Decides`: A scope has an override, and this is it.
* `Settings.SavesFormatted`: A document of a scope is formatted when it is saved.

## Theorems

* `precedes_irrefl`: No text precedes itself.
* `get?_eq_some_iff`: An entry is found if and only if it is there.
* `formatsOnSave_iff`: The settings answer by the override, or else by the general setting.
-/

namespace Restyle

/-- No text precedes itself. -/
theorem Text.precedes_irrefl (t : Text) : t.precedes t = false := by
  induction t with
  | nil => rfl
  | cons c t ih =>
      rw [precedes, ih, Bool.and_false, Bool.or_false, decide_eq_false_iff_not]
      exact Nat.lt_irrefl _

namespace Scopes

/-- Two entries with one name are the same. -/
theorem eq_of_mem_entries {s : Scopes} {a b : Text × ScopeOverrides} (ha : a ∈ s.entries)
    (hb : b ∈ s.entries) (h : a.1 = b.1) : a = b := by
  rcases s with ⟨entries, hsorted⟩
  induction entries with
  | nil => exact absurd ha (List.not_mem_nil)
  | cons e rest ih =>
      have hrest := List.pairwise_cons.mp hsorted
      -- An entry that comes later has a name that `e` precedes, so not its name.
      have hlater : ∀ d ∈ rest, e.1 ≠ d.1 := by
        intro d hd heq
        have hlt := hrest.1 d hd
        rw [heq, Text.precedes_irrefl] at hlt
        exact Bool.false_ne_true hlt
      rcases List.mem_cons.mp ha with hae | har
      · rcases List.mem_cons.mp hb with hbe | hbr
        · rw [hae, hbe]
        · exact absurd (hae ▸ h) (hlater b hbr)
      · rcases List.mem_cons.mp hb with hbe | hbr
        · exact absurd (hbe ▸ h.symm) (hlater a har)
        · exact ih hrest.2 har hbr

/-- An entry is found if and only if it is there. -/
theorem get?_eq_some_iff (s : Scopes) (name : Text) (o : ScopeOverrides) :
    s.get? name = some o ↔ (name, o) ∈ s.entries := by
  unfold get?
  constructor
  · intro h
    rcases Option.map_eq_some_iff.mp h with ⟨e, he, rfl⟩
    have hname : e.1 = name := by simpa using List.find?_some he
    rw [← hname]
    exact List.mem_of_find?_eq_some he
  · intro h
    cases hfind : s.entries.find? (·.1 = name) with
    | none =>
        have hne := List.find?_eq_none.mp hfind (name, o) h
        simp only [decide_true, not_true_eq_false] at hne
    | some e =>
        have hname : e.1 = name := by simpa using List.find?_some hfind
        rw [eq_of_mem_entries (List.mem_of_find?_eq_some hfind) h hname]
        rfl

end Scopes

namespace Settings

/-- A scope has an override that decides about formatting on save, and this is its choice. -/
def Decides (s : Settings) (scope : Option Text) (choice : Bool) : Prop :=
  ∃ name o, scope = some name ∧ (name, o) ∈ s.scopes.entries ∧ o.formatOnSave = some choice

/-- A document of a scope is formatted when it is saved: the scope chooses so, or it leaves the choice
    to the general setting. -/
def SavesFormatted (s : Settings) (scope : Option Text) : Prop :=
  s.Decides scope true ∨ (∀ choice, ¬ s.Decides scope choice) ∧ s.formatOnSave = true

/-- An override decides if and only if the search gives it. -/
theorem decides_iff (s : Settings) (scope : Option Text) (choice : Bool) :
    s.Decides scope choice ↔
      (scope.bind s.scopes.get?).bind (·.formatOnSave) = some choice := by
  unfold Decides
  constructor
  · rintro ⟨name, o, rfl, hmem, ho⟩
    rw [Option.bind_some, (Scopes.get?_eq_some_iff s.scopes name o).mpr hmem, Option.bind_some, ho]
  · intro h
    rcases Option.bind_eq_some_iff.mp h with ⟨o, hget, ho⟩
    rcases Option.bind_eq_some_iff.mp hget with ⟨name, hname, hfound⟩
    exact ⟨name, o, hname, (Scopes.get?_eq_some_iff s.scopes name o).mp hfound, ho⟩

/-- The settings answer by the override of the scope, or else by the general setting. -/
theorem formatsOnSave_iff (s : Settings) (scope : Option Text) :
    s.formatsOnSave scope = true ↔ s.SavesFormatted scope := by
  unfold formatsOnSave SavesFormatted
  simp only [decides_iff]
  cases (scope.bind s.scopes.get?).bind (·.formatOnSave) with
  | none => simp only [Option.getD_none, reduceCtorEq, not_false_eq_true, implies_true, true_and,
      false_or]
  | some choice => cases choice <;> simp

instance (s : Settings) (scope : Option Text) : Decidable (s.SavesFormatted scope) :=
  decidable_of_iff _ (formatsOnSave_iff s scope)

end Settings

end Restyle
