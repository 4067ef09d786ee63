import Restyle.Text.Order

/-!
# Scopes

Settings for each language scope, as a finite map.

The entries are kept sorted by name, so that two maps with the same entries are the same value, in
whatever order a document lists them. Of two entries with one name the last counts.

## Main definitions

* `ScopeOverrides`: The settings that may differ in one scope.
* `Scopes`: The overrides of each scope.
* `Scopes.insert`: The map with one entry set.
* `Scopes.get?`: The overrides of a scope.

## Theorems

* `mem_insertEntry`: Setting an entry brings in no other.
* `pairwise_insertEntry`: Setting an entry keeps the entries sorted.
-/

namespace Restyle

/-- The settings that may differ in one scope. -/
structure ScopeOverrides where
  formatOnSave : Option Bool := none
  deriving DecidableEq, Repr, Inhabited

/-- The overrides of each scope, sorted by its name. -/
structure Scopes where
  entries : List (Text × ScopeOverrides)
  sorted : entries.Pairwise fun a b => a.1.precedes b.1 = true
  deriving DecidableEq, Repr

namespace Scopes

/-- No overrides. -/
def empty : Scopes :=
  ⟨[], .nil⟩

instance : Inhabited Scopes := ⟨empty⟩

/-- Put an entry in its place among sorted ones. -/
def insertEntry (name : Text) (o : ScopeOverrides) :
    List (Text × ScopeOverrides) → List (Text × ScopeOverrides)
  | [] => [(name, o)]
  | e :: rest =>
    if name = e.1 then (name, o) :: rest
    else if name.precedes e.1 then (name, o) :: e :: rest
    else e :: insertEntry name o rest

/-- Setting an entry brings in no other. -/
theorem mem_insertEntry {name : Text} {o : ScopeOverrides} {e : Text × ScopeOverrides}
    {entries : List (Text × ScopeOverrides)} (h : e ∈ insertEntry name o entries) :
    e = (name, o) ∨ e ∈ entries := by
  induction entries with
  | nil => simpa [insertEntry] using h
  | cons d rest ih =>
    rw [insertEntry] at h
    split at h
    · rcases List.mem_cons.mp h with h | h
      · exact .inl h
      · exact .inr (List.mem_cons_of_mem _ h)
    · split at h
      · exact (List.mem_cons.mp h)
      · rcases List.mem_cons.mp h with h | h
        · exact .inr (h ▸ List.mem_cons_self)
        · exact (ih h).imp_right (List.mem_cons_of_mem _)

/-- Setting an entry keeps the entries sorted. -/
theorem pairwise_insertEntry {name : Text} {o : ScopeOverrides}
    {entries : List (Text × ScopeOverrides)}
    (h : entries.Pairwise fun a b => a.1.precedes b.1 = true) :
    (insertEntry name o entries).Pairwise fun a b => a.1.precedes b.1 = true := by
  induction entries with
  | nil => simp [insertEntry]
  | cons e rest ih =>
    rw [List.pairwise_cons] at h
    rw [insertEntry]
    split
    · next he => exact List.pairwise_cons.mpr ⟨fun d hd => he ▸ h.1 d hd, h.2⟩
    · next hne =>
      split
      · next hlt =>
        refine List.pairwise_cons.mpr ⟨fun d hd => ?_, List.pairwise_cons.mpr h⟩
        rcases List.mem_cons.mp hd with rfl | hd
        · exact hlt
        · exact Text.precedes_trans hlt (h.1 d hd)
      · next hge =>
        refine List.pairwise_cons.mpr ⟨fun d hd => ?_, ih h.2⟩
        rcases mem_insertEntry hd with rfl | hd
        · rcases Text.precedes_or_precedes hne with h' | h'
          · exact absurd h' hge
          · exact h'
        · exact h.1 d hd

/-- The map with one entry set. -/
def insert (name : Text) (o : ScopeOverrides) (s : Scopes) : Scopes :=
  ⟨insertEntry name o s.entries, pairwise_insertEntry s.sorted⟩

/-- The overrides of a scope. -/
def get? (s : Scopes) (name : Text) : Option ScopeOverrides :=
  (s.entries.find? (·.1 = name)).map (·.2)

end Scopes

end Restyle
