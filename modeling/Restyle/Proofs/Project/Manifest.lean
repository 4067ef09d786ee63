import Mathlib.Data.List.Basic
import Restyle.Manifest
import Restyle.Proofs.Effects
import Restyle.Proofs.Path

/-!
# The Nearest Manifest

Where a project is, how it sees its files, and what its manifest lists.

The directory of a project is found by a search upwards, and the search is made anew for every question.
Here the directory is described instead: it is the path or above it, it has a manifest, and nothing
nearer has one. There is at most one such directory, so two questions that find it are about the same
manifest.

A file is seen from its project by the components that it has beyond those of the directory. They are
counted off without a look at what they are, which is safe because the directory is an ancestor of the
file and so its components come first.

What a section lists goes by its value alone. Each of the many ways in which a manifest can be defective
leaves nothing that is listed.

## Main definitions

* `IsNearest`: A directory is the nearest with a manifest.
* `SeenAs`: The path by which a project sees a file.
* `Lists`: The patterns that a section lists.
* `ListsIn`: A pattern is listed by the manifest in a directory.

## Theorems

* `root?_eq_some_iff`: The search finds the nearest directory.
* `seenAs_iff`: A file is seen in one way only.
* `exists_pattern_iff`: What the options of a file list is what the nearest manifest lists.
-/

namespace Restyle.Manifest

/-- A directory is the nearest with a manifest, as seen from a path. -/
def IsNearest (tree : FileTree) (start dir : Path) : Prop :=
  ∃ nearer farther, start.ancestors = nearer ++ dir :: farther ∧
    tree.isFile (dir.join ⟨"package.json".toList⟩) = true ∧
    ∀ d ∈ nearer, tree.isFile (d.join ⟨"package.json".toList⟩) = false

/-- How a file is seen: from the directory of the nearest manifest if there is one, and by its own path
    otherwise. -/
inductive SeenAs (tree : FileTree) (file : Path) : Text → Prop where
  | fromProject {dir : Path} {rest : List Text} (hdir : IsNearest tree file dir)
      (hrest : file.components = dir.components ++ rest) : SeenAs tree file (['/'].intercalate rest)
  | alone (hnone : ∀ dir, ¬ IsNearest tree file dir) : SeenAs tree file file.text

/-- A section lists patterns: it is an object that has nothing under the key of the patterns, or a list
    of strings. -/
def Lists (j : Json) (patterns : List Text) : Prop :=
  ∃ members, j = .object members ∧
    (Json.lookup? "ignore".toList members = none ∧ patterns = [] ∨
      Json.lookup? "ignore".toList members = some (.array (patterns.map .string)))

/-- The manifest in a directory lists a pattern in a section: it can be read, it is JSON, and it has that
    section. -/
def ListsIn (tree : FileTree) (dir : Path) (key pattern : Text) : Prop :=
  ∃ text manifest options patterns,
    tree.readText (dir.join ⟨"package.json".toList⟩) = .ok text ∧ Json.parse text = .ok manifest ∧
      manifest.get? key = some options ∧ Lists options patterns ∧ pattern ∈ patterns

/-- The name that is spelled out is the one that is looked up. -/
theorem isNearest_iff (tree : FileTree) (start dir : Path) :
    IsNearest tree start dir ↔ ∃ nearer farther, start.ancestors = nearer ++ dir :: farther ∧
      tree.isFile (inDirectory dir) = true ∧ ∀ d ∈ nearer, tree.isFile (inDirectory d) = false :=
  Iff.rfl

theorem root?_eq_some_iff (tree : FileTree) (start dir : Path) :
    root? tree start = some dir ↔ IsNearest tree start dir := by
  rw [isNearest_iff, root?, List.find?_eq_some_iff_append]
  constructor
  · rintro ⟨hdir, nearer, farther, hsplit, hnearer⟩
    exact ⟨nearer, farther, hsplit, hdir, fun d hd => by simpa using hnearer d hd⟩
  · rintro ⟨nearer, farther, hsplit, hdir, hnearer⟩
    exact ⟨hdir, nearer, farther, hsplit, fun d hd => by simpa using hnearer d hd⟩

theorem root?_eq_none_iff (tree : FileTree) (start : Path) :
    root? tree start = none ↔ ∀ dir, ¬ IsNearest tree start dir := by
  rw [Option.eq_none_iff_forall_ne_some]
  exact forall_congr' fun dir => not_congr (root?_eq_some_iff tree start dir)

theorem IsNearest.mem_ancestors {tree : FileTree} {start dir : Path} (h : IsNearest tree start dir) :
    dir ∈ start.ancestors := by
  rcases h with ⟨nearer, farther, hsplit, -⟩
  rw [hsplit]
  exact List.mem_append_right _ List.mem_cons_self

/-- From its project a file is seen by the components beyond those of the directory. -/
theorem relativePath_of_isNearest {tree : FileTree} {file dir : Path} {rest : List Text}
    (hdir : IsNearest tree file dir) (hrest : file.components = dir.components ++ rest) :
    relativePath tree file = ['/'].intercalate rest := by
  rw [relativePath, (root?_eq_some_iff tree file dir).mpr hdir]
  simp only [hrest, List.drop_left]

/-- A file is seen in one way only, the one that is computed. -/
theorem seenAs_iff (tree : FileTree) (file : Path) (seen : Text) :
    SeenAs tree file seen ↔ seen = relativePath tree file := by
  constructor
  · intro h
    cases h with
    | fromProject hdir hrest => exact (relativePath_of_isNearest hdir hrest).symm
    | alone hnone => rw [relativePath, (root?_eq_none_iff tree file).mpr hnone]
  · rintro rfl
    cases hroot : root? tree file with
    | none =>
        rw [relativePath, hroot]
        exact .alone ((root?_eq_none_iff tree file).mp hroot)
    | some dir =>
        have hdir := (root?_eq_some_iff tree file dir).mp hroot
        rcases Path.exists_components_of_mem_ancestors hdir.mem_ancestors with ⟨rest, hrest⟩
        rw [relativePath_of_isNearest hdir hrest]
        exact .fromProject hdir hrest

theorem text?_eq_some_iff (j : Json) (t : Text) : j.text? = some t ↔ j = .string t := by
  cases j <;> simp [Json.text?]

/-- A section lists what is read from it. -/
theorem lists_iff (j : Json) (patterns : List Text) :
    Lists j patterns ↔ ∃ o, Options.ofJson? j = some o ∧ o.ignore = patterns := by
  cases j with
  | object members =>
      have hlists : Lists (.object members) patterns ↔
          Json.lookup? Options.ignoreKey members = none ∧ patterns = [] ∨
            Json.lookup? Options.ignoreKey members = some (.array (patterns.map .string)) := by
        constructor
        · rintro ⟨_, ⟨⟩, h⟩
          exact h
        · exact fun h => ⟨members, rfl, h⟩
      rw [hlists]
      unfold Options.ofJson?
      cases hignore : Json.lookup? Options.ignoreKey members with
      | none => simp [hignore, eq_comm]
      | some v =>
          cases v with
          | array items => simp [hignore, mapM_eq_some_iff text?_eq_some_iff, Option.bind_eq_some_iff]
          | _ => simp [hignore]
  | _ => simp [Lists, Options.ofJson?]

/-- What the options of a file list is what the nearest manifest lists. -/
theorem exists_pattern_iff (tree : FileTree) (file : Path) (key pattern : Text) :
    (∃ o, options? tree file key = some o ∧ pattern ∈ o.ignore) ↔
      ∃ dir, IsNearest tree file dir ∧ ListsIn tree dir key pattern := by
  constructor
  · rintro ⟨o, ho, hpattern⟩
    rcases Option.bind_eq_some_iff.mp ho with ⟨options, hsection, ho⟩
    rcases Option.bind_eq_some_iff.mp hsection with ⟨dir, hdir, hsection⟩
    rcases Option.bind_eq_some_iff.mp hsection with ⟨manifest, hmanifest, hget⟩
    rcases Option.bind_eq_some_iff.mp hmanifest with ⟨text, htext, hparse⟩
    exact ⟨dir, (root?_eq_some_iff tree file dir).mp hdir, text, manifest, options, o.ignore,
      eq_ok_of_toOption htext, eq_ok_of_toOption hparse, hget,
      (lists_iff options o.ignore).mpr ⟨o, ho, rfl⟩, hpattern⟩
  · rintro ⟨dir, hdir, text, manifest, options, patterns, htext, hparse, hget, hlists, hpattern⟩
    rcases (lists_iff options patterns).mp hlists with ⟨o, ho, rfl⟩
    refine ⟨o, ?_, hpattern⟩
    change tree.readText (inDirectory dir) = .ok text at htext
    simp only [options?, section?, read?, (root?_eq_some_iff tree file dir).mpr hdir, htext, hparse,
      hget, ho, Except.toOption, Option.bind_eq_bind, Option.bind_some]

end Restyle.Manifest
