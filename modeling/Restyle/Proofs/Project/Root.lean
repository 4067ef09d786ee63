import Mathlib.Data.List.Induction
import Restyle.CommandLine.Survey
import Restyle.Proofs.FileTree
import Restyle.Proofs.Project.Manifest

/-!
# Where a Project Starts

The root of a project and the paths below it, said about names.

A path that is absolute and has no fillers is a list of names, and what is above it are the beginnings of
that list. The search for a manifest takes them from the longest to the shortest, so it is followed one
name at a time from the end: either the directory of all names has a manifest, or the search is the one
for the names without the last. The root of the file system is the list without names, and no exception.

A project divides the names in two, those of its root and those inside. The path by which it sees a file
is the names inside, joined. Joining can be undone, since no name is empty or holds a slash, so a file is
known by this path.

Two things are taken for granted in this. The names are texts, as in every path here, and a directory has
a manifest if it can be looked up under the path of the directory.

## Main definitions

* `Location.IsPlain`: Names that stand in a path without fillers.
* `HasManifest`: A directory has a manifest.
* `Divides`: A project divides the names of a file.

## Theorems

* `intercalate_injective`: Names that are joined can be told apart.
* `ancestors_path_concat`: Above a path is what is above its directory, and that directory.
* `root?_path_concat`: The search goes on at the directory of a path.
* `root_divides`: The root of a project, and the paths by which it sees its files.
-/

namespace Restyle

/-- Names that stand in an absolute path which has no fillers and does not go up. -/
def Location.IsPlain (location : Location) : Prop :=
  ∀ name ∈ location, name ≠ [] ∧ name ≠ ['.'] ∧ name ≠ ['.', '.'] ∧ '/' ∉ name

namespace Location

variable {l l' : Location}

theorem IsPlain.append_left (h : IsPlain (l ++ l')) : IsPlain l :=
  fun name hname => h name (List.mem_append_left _ hname)

theorem IsPlain.append_right (h : IsPlain (l ++ l')) : IsPlain l' :=
  fun name hname => h name (List.mem_append_right _ hname)

theorem IsPlain.isFiller_eq_false (h : l.IsPlain) : ∀ name ∈ l, Path.isFiller name = false := by
  intro name hname
  rcases h name hname with ⟨hnil, hdot, -, -⟩
  simp [Path.isFiller, hnil, hdot]

theorem IsPlain.nil_not_mem (h : l.IsPlain) : [] ∉ l :=
  fun hmem => (h [] hmem).1 rfl

/-- Names that are joined are split again. Where there are none, splitting gives an empty one. -/
theorem IsPlain.segments_eq (h : l.IsPlain) :
    Text.segments '/' (['/'].intercalate l) = if l = [] then [[]] else l := by
  split
  · next hnil => rw [hnil]; rfl
  · next hne => exact Text.segments_intercalate hne fun name hname => (h name hname).2.2.2

/-- Names that are joined can be told apart. -/
theorem intercalate_injective (h : l.IsPlain) (h' : l'.IsPlain)
    (heq : ['/'].intercalate l = ['/'].intercalate l') : l = l' := by
  have hsegments := congrArg (Text.segments '/') heq
  rw [h.segments_eq, h'.segments_eq] at hsegments
  -- No name is empty, so one list cannot be empty without the other.
  split at hsegments
  · next hnil =>
      split at hsegments
      · next hnil' => rw [hnil, hnil']
      · exact absurd (hsegments ▸ List.mem_singleton_self []) h'.nil_not_mem
  · split at hsegments
    · exact absurd (hsegments ▸ List.mem_singleton_self []) h.nil_not_mem
    · exact hsegments

theorem path_injective (h : l.IsPlain) (h' : l'.IsPlain) (heq : l.path = l'.path) : l = l' :=
  intercalate_injective h h' (List.cons.inj (congrArg Path.text heq)).2

/-- Joined names neither start nor end with a slash. -/
theorem IsPlain.no_outer_slash (h : l.IsPlain) :
    (['/'].intercalate l).head? ≠ some '/' ∧ (['/'].intercalate l).getLast? ≠ some '/' := by
  have hsegments := h.segments_eq
  constructor
  · -- A slash at either end would leave an empty name.
    intro hhead
    rcases List.head?_eq_some_iff.mp hhead with ⟨t, ht⟩
    rw [ht, Text.segments_cons_self] at hsegments
    split at hsegments
    · exact nomatch (List.cons.inj hsegments).2
    · exact h.nil_not_mem (hsegments ▸ List.mem_cons_self)
  · intro hlast
    rcases List.getLast?_eq_some_iff.mp hlast with ⟨t, ht⟩
    rw [ht, Text.segments_append_cons] at hsegments
    split at hsegments
    · next hnil => rw [hnil] at ht; exact absurd ht (by simp)
    · exact h.nil_not_mem (hsegments ▸ List.mem_append_right _ List.mem_cons_self)

theorem components_path (h : l.IsPlain) : l.path.components = ['/'] :: l := by
  have hbody : l.path.body = Text.segments '/' (['/'].intercalate l) := rfl
  rw [Path.components, hbody, h.segments_eq]
  change ['/'] :: _ = _
  split
  · next hnil => rw [hnil]; rfl
  · rw [List.filter_eq_self.mpr fun name hname => by simp [h.isFiller_eq_false name hname]]
    rfl

theorem properAncestors_path (h : l.IsPlain) :
    l.path.properAncestors = Path.above ['/'] l.reverse := by
  have hbody : l.path.body = Text.segments '/' (['/'].intercalate l) := rfl
  rw [Path.properAncestors, hbody, h.segments_eq]
  split
  · next hnil => rw [hnil]; rfl
  · rfl

/-- Above a path is its directory, and what is above that. -/
theorem ancestors_path_concat {name : Text} (h : IsPlain (l ++ [name])) :
    (path (l ++ [name])).ancestors = path (l ++ [name]) :: (path l).ancestors := by
  have hname := h.isFiller_eq_false name (List.mem_append_right _ (List.mem_singleton_self name))
  have hl := h.append_left
  -- The directory has no fillers at its end that would be left out.
  have hdrop : l.reverse.dropWhile Path.isFiller = l.reverse := by
    refine List.dropWhile_eq_self_iff.mpr fun hpos => ?_
    rw [hl.isFiller_eq_false _ (List.mem_reverse.mp (List.getElem_mem hpos))]
    exact Bool.false_ne_true
  rw [Path.ancestors, properAncestors_path h, List.reverse_concat, Path.above,
    if_neg (by rw [hname]; exact Bool.false_ne_true), hdrop, List.reverse_reverse,
    ← properAncestors_path hl]
  rfl

end Location

namespace Manifest

variable (tree : FileTree)

/-- A directory has a manifest: its name for manifests leads to a file. -/
def HasManifest (dir : Location) : Prop :=
  ∃ place bytes, tree.find (Location.path (dir ++ ["package.json".toList])) = .ok (place, .file bytes)

/-- A project divides the names of a file into those of its root, which has a manifest, and those
    inside, of which none leads to another manifest. -/
structure Divides (file root inside : Location) : Prop where
  names : file = root ++ inside
  manifest : HasManifest tree root
  nearest : ∀ between, between <+: inside → between ≠ [] → ¬ HasManifest tree (root ++ between)

theorem inDirectory_path {dir : Location} (h : dir.IsPlain) :
    inDirectory dir.path = Location.path (dir ++ ["package.json".toList]) := by
  have hname : Path.isAbsolute ⟨fileName⟩ = false := rfl
  rw [inDirectory, Path.join, if_neg (by rw [hname]; exact Bool.false_ne_true)]
  induction dir using List.reverseRecOn with
  | nil => rfl
  | append_singleton dir name =>
      rcases h name (List.mem_append_right _ (List.mem_singleton_self name)) with ⟨hnil, -, -, hslash⟩
      have hlast := FileTree.getLast?_path_concat dir hnil hslash
      rw [if_neg fun hend => hend.elim (List.cons_ne_nil _ _) hlast]
      -- The name of the manifest is joined behind a slash of its own.
      have hjoin : ['/'].intercalate (dir ++ [name] ++ ["package.json".toList]) = _ :=
        Text.intercalate_append_of_ne_nil
          (List.append_ne_nil_of_right_ne_nil dir (List.cons_ne_nil name []))
          (List.cons_ne_nil "package.json".toList [])
      rw [Location.path, Location.path, hjoin, List.intercalate_singleton]
      rfl

theorem isFile_eq_true_iff (p : Path) :
    tree.isFile p = true ↔ ∃ place bytes, tree.find p = .ok (place, .file bytes) := by
  unfold FileTree.isFile
  split
  · next place bytes hfind => exact ⟨fun _ => ⟨place, bytes, hfind⟩, fun _ => rfl⟩
  · next hother =>
      refine ⟨fun h => absurd h Bool.false_ne_true, ?_⟩
      rintro ⟨place, bytes, hfind⟩
      exact absurd hfind (hother place bytes)

theorem isFile_inDirectory_iff {dir : Location} (h : dir.IsPlain) :
    tree.isFile (inDirectory dir.path) = true ↔ HasManifest tree dir := by
  rw [inDirectory_path h, isFile_eq_true_iff]
  rfl

/-- The search goes on at the directory of a path, if there is no manifest at the path itself. -/
theorem root?_path_concat {dir : Location} {name : Text} (h : Location.IsPlain (dir ++ [name])) :
    root? tree (Location.path (dir ++ [name])) =
      if tree.isFile (inDirectory (Location.path (dir ++ [name]))) then
        some (Location.path (dir ++ [name]))
      else root? tree dir.path := by
  rw [root?, Location.ancestors_path_concat h, List.find?_cons]
  cases tree.isFile (inDirectory (Location.path (dir ++ [name]))) with
  | true => rfl
  | false => rfl

theorem root?_path_nil :
    root? tree (Location.path []) =
      if tree.isFile (inDirectory (Location.path [])) then some (Location.path []) else none := by
  have hancestors : (Location.path []).ancestors = [Location.path []] := rfl
  rw [root?, hancestors, List.find?_cons]
  cases tree.isFile (inDirectory (Location.path [])) with
  | true => rfl
  | false => rfl

/-- The root that is found divides the names. -/
theorem exists_divides {file : Location} (h : file.IsPlain) {dir : Path}
    (hroot : root? tree file.path = some dir) :
    ∃ root inside, Divides tree file root inside ∧ dir = root.path := by
  induction file using List.reverseRecOn with
  | nil =>
      rw [root?_path_nil, Option.ite_none_right_eq_some] at hroot
      refine ⟨[], [], ⟨rfl, (isFile_inDirectory_iff tree h).mp hroot.1, ?_⟩, ?_⟩
      · intro between hbetween hne
        exact absurd (List.prefix_nil.mp hbetween) hne
      · exact (Option.some.inj hroot.2).symm
  | append_singleton file name ih =>
      rw [root?_path_concat tree h] at hroot
      split at hroot
      · next hfile =>
          refine ⟨file ++ [name], [], ⟨(List.append_nil _).symm,
            (isFile_inDirectory_iff tree h).mp hfile, ?_⟩, (Option.some.inj hroot).symm⟩
          intro between hbetween hne
          exact absurd (List.prefix_nil.mp hbetween) hne
      · next hfile =>
          rcases ih h.append_left hroot with ⟨root, inside, ⟨rfl, hmanifest, hnearest⟩, hdir⟩
          refine ⟨root, inside ++ [name], ⟨List.append_assoc _ _ _, hmanifest, ?_⟩, hdir⟩
          intro between hbetween hne
          -- Either all names are meant, or fewer, and then the last one is not among them.
          rcases List.prefix_concat_iff.mp hbetween with rfl | hbetween
          · rw [← List.append_assoc]
            exact fun hhas => hfile ((isFile_inDirectory_iff tree h).mpr hhas)
          · exact hnearest between hbetween hne

/-- Where no root is found there is no manifest at a file or above it. -/
theorem not_hasManifest_of_root? {file : Location} (h : file.IsPlain)
    (hroot : root? tree file.path = none) : ∀ above, above <+: file → ¬ HasManifest tree above := by
  induction file using List.reverseRecOn with
  | nil =>
      intro above habove hhas
      rw [List.prefix_nil.mp habove] at hhas
      rw [root?_path_nil, if_pos ((isFile_inDirectory_iff tree h).mpr hhas)] at hroot
      exact nomatch hroot
  | append_singleton file name ih =>
      intro above habove hhas
      rw [root?_path_concat tree h] at hroot
      split at hroot
      · exact nomatch hroot
      · next hfile =>
          rcases List.prefix_concat_iff.mp habove with rfl | habove
          · exact hfile ((isFile_inDirectory_iff tree h).mpr hhas)
          · exact ih h.append_left hroot above habove hhas

/-- A project sees a file by the names inside. -/
theorem Divides.relativePath_eq {tree : FileTree} {file root inside : Location}
    (h : Divides tree file root inside) (hplain : file.IsPlain)
    (hroot : root? tree file.path = some root.path) :
    relativePath tree file.path = ['/'].intercalate inside := by
  have hnearest := (root?_eq_some_iff tree file.path root.path).mp hroot
  obtain rfl := h.names
  refine relativePath_of_isNearest hnearest ?_
  rw [Location.components_path hplain, Location.components_path hplain.append_left]
  rfl

/-- The root of the project of a file, if one is found, is at the file or above it and has a manifest,
    and nothing between the two has one. Its components and the pieces of the path by which it sees the
    file are the components of the file, if that is not the root itself. That path has no slash at either
    end, and no other file of the project has the same. If no root is found there is no manifest at the
    file or above it, and the file is seen by its own path. -/
theorem root_divides {file : Location} (h : file.IsPlain) :
    (∀ dir, root? tree file.path = some dir →
      (∃ root inside, Divides tree file root inside ∧ dir = root.path) ∧
      (file.path ≠ dir →
        dir.components ++ Text.segments '/' (relativePath tree file.path) = file.path.components) ∧
      (relativePath tree file.path).head? ≠ some '/' ∧
      (relativePath tree file.path).getLast? ≠ some '/' ∧
      ∀ other : Location, other.IsPlain → root? tree other.path = some dir → other ≠ file →
        relativePath tree other.path ≠ relativePath tree file.path) ∧
    (root? tree file.path = none →
      (∀ above, above <+: file → ¬ HasManifest tree above) ∧
      relativePath tree file.path = file.path.text) := by
  constructor
  · intro dir hroot
    rcases exists_divides tree h hroot with ⟨root, inside, hdivides, rfl⟩
    have hseen := hdivides.relativePath_eq h hroot
    have hplain : Location.IsPlain (root ++ inside) := hdivides.names ▸ h
    refine ⟨⟨root, inside, hdivides, rfl⟩, ?_, ?_⟩
    · intro hne
      have hinside : inside ≠ [] := by
        rintro rfl
        exact hne (by rw [hdivides.names, List.append_nil])
      rw [hseen, hplain.append_right.segments_eq, if_neg hinside, hdivides.names,
        Location.components_path hplain, Location.components_path hplain.append_left]
      rfl
    · rw [hseen]
      refine ⟨hplain.append_right.no_outer_slash.1, hplain.append_right.no_outer_slash.2, ?_⟩
      intro other hother hroot' hne heq
      rcases exists_divides tree hother hroot' with ⟨root', inside', hdivides', hsame⟩
      have hplain' : Location.IsPlain (root' ++ inside') := hdivides'.names ▸ hother
      obtain rfl := Location.path_injective hplain.append_left hplain'.append_left hsame
      rw [hdivides'.relativePath_eq hother hroot'] at heq
      have hinside := Location.intercalate_injective hplain'.append_right hplain.append_right heq
      exact hne (by rw [hdivides'.names, hdivides.names, hinside])
  · intro hroot
    refine ⟨not_hasManifest_of_root? tree h hroot, ?_⟩
    rw [relativePath, hroot]

/-- A manifest in the root of the file system, and below it a directory of that name. -/
def decoy : FileTree :=
  CommandLine.Survey.tree []
    [([], .directory), (["package.json".toList], .file []), (["p".toList], .directory),
      (["p".toList, "package.json".toList], .directory),
      (["p".toList, "a b.js".toList], .file [])]

/-- A file beside that directory, and one inside of it. -/
def beside : Location := ["p".toList, "a b.js".toList]

def within : Location := ["p".toList, "package.json".toList, "a b.js".toList]

theorem root_divides_decoy :
    beside.IsPlain ∧ within.IsPlain ∧
      root? decoy beside.path = some (Location.path []) ∧
      root? decoy within.path = some (Location.path []) ∧
      beside.path ≠ Location.path [] ∧ within ≠ beside ∧
      (∃ root inside, Divides decoy beside root inside ∧ Location.path [] = root.path) ∧
      (Location.path []).components ++ Text.segments '/' (relativePath decoy beside.path) =
        beside.path.components ∧
      relativePath decoy within.path ≠ relativePath decoy beside.path := by
  have hplain : beside.IsPlain := by
    unfold Location.IsPlain
    decide
  have hplain' : within.IsPlain := by
    unfold Location.IsPlain
    decide
  have hroot : root? decoy beside.path = some (Location.path []) := by decide +kernel
  have hroot' : root? decoy within.path = some (Location.path []) := by decide +kernel
  have hpath : beside.path ≠ Location.path [] := by decide
  have hother : within ≠ beside := by decide
  rcases root_divides decoy hplain with ⟨hfound, -⟩
  rcases hfound _ hroot with ⟨hdivides, hpieces, -, -, hothers⟩
  exact ⟨hplain, hplain', hroot, hroot', hpath, hother, hdivides, hpieces hpath,
    hothers within hplain' hroot' hother⟩

end Manifest

end Restyle
