import Mathlib.Data.List.Infix
import Restyle.Proofs.FileTree.Writing
import Restyle.Proofs.Project.Root

/-!
# Where the Division of Names Ends

Which files are not told apart by the paths that their project sees, and which manifests are not found.

The law of projects is about names that are texts and about manifests that can be looked up, and it needs
both. A system has names of bytes. Searching for a manifest does not look into a name, so it is the same
for bytes as for texts, and it is said here for names of any type. But a path that is shown to a pattern
is a text, and a name that is none is read with replacement characters. Two files beside each other can
have the same path then, and its pieces are not the names. For texts nothing is replaced, and the path is
the one that is computed.

A manifest is looked up by its whole path, and a path can be too long for that. So it may be that a
directory has a manifest, which can be read from inside of the directory, and that the search comes past
it all the same.

## Main definitions

* `nearest`: The search for a manifest among names of any type.
* `RawLocation`: The names that lead to a place, as a system has them.
* `rawRelativePath`: The path by which a project sees a file with such names.
* `deepProject`: A directory with a manifest whose path is too long.

## Theorems

* `root?_path`: The search upwards from a path is the search among its names.
* `rawRelativePath_toUtf8`: Where names are texts, it is the path that is computed.
* `byteLength_path`: A path is as long as its names, with a slash before each.
* `names_not_divided`: Two files with one path, and a directory whose manifest is not found.
-/

namespace Restyle

/-- The names that lead from the root to a place, as a system has them. -/
abbrev RawLocation := List (List UInt8)

namespace Manifest

/-! ### Names of any type -/

section Nearest

variable {α β : Type}

/-- The nearest directory with a manifest, from the end of a list of names. -/
def nearest (hasManifest : List α → Bool) (names : List α) : Option (List α) :=
  names.inits.reverse.find? hasManifest

theorem nearest_concat (hasManifest : List α → Bool) (names : List α) (name : α) :
    nearest hasManifest (names ++ [name]) =
      if hasManifest (names ++ [name]) then some (names ++ [name]) else nearest hasManifest names := by
  have hinits : (names ++ [name]).inits = names.inits ++ [names ++ [name]] := by
    simp [List.inits_append]
  rw [nearest, hinits, List.reverse_concat, List.find?_cons]
  cases hasManifest (names ++ [name]) with
  | true => rfl
  | false => rfl

theorem nearest_nil (hasManifest : List α → Bool) :
    nearest hasManifest [] = if hasManifest [] then some [] else none := by
  rw [nearest, List.inits, List.reverse_singleton, List.find?_cons]
  cases hasManifest [] with
  | true => rfl
  | false => rfl

/-- The search does not look into a name. -/
theorem nearest_map (hasManifest : List β → Bool) (f : α → β) (names : List α) :
    nearest hasManifest (names.map f) =
      (nearest (fun dir => hasManifest (dir.map f)) names).map (List.map f) := by
  induction names using List.reverseRecOn with
  | nil =>
      rw [List.map_nil, nearest_nil, nearest_nil, List.map_nil]
      split <;> rfl
  | append_singleton names name ih =>
      rw [List.map_append, List.map_singleton, nearest_concat, nearest_concat, ih, List.map_append,
        List.map_singleton]
      split
      · rw [Option.map_some, List.map_append, List.map_singleton]
      · rfl

theorem nearest_congr {hasManifest hasManifest' : List α → Bool} {names : List α}
    (h : ∀ dir, dir <+: names → hasManifest dir = hasManifest' dir) :
    nearest hasManifest names = nearest hasManifest' names := by
  induction names using List.reverseRecOn with
  | nil => rw [nearest_nil, nearest_nil, h [] List.prefix_rfl]
  | append_singleton names name ih =>
      rw [nearest_concat, nearest_concat, h _ List.prefix_rfl,
        ih fun dir hdir => h dir (hdir.trans (List.prefix_append names [name]))]

/-- What is found is above the place. -/
theorem prefix_of_nearest {hasManifest : List α → Bool} {names dir : List α}
    (h : nearest hasManifest names = some dir) : dir <+: names :=
  (List.mem_inits dir names).mp (List.mem_reverse.mp (List.mem_of_find?_eq_some h))

end Nearest

/-- The search upwards from a path is the search among its names. -/
theorem root?_path (tree : FileTree) {file : Location} (h : file.IsPlain) :
    root? tree file.path =
      (nearest (fun dir => tree.isFile (inDirectory (Location.path dir))) file).map Location.path := by
  -- Both look at the whole first, and go on without the last name.
  induction file using List.reverseRecOn with
  | nil =>
      rw [root?_path_nil, nearest_nil]
      split <;> rfl
  | append_singleton file name ih =>
      rw [root?_path_concat tree h, nearest_concat, ih h.append_left]
      split <;> rfl

/-! ### Names of bytes -/

/-- The path of a file as seen from its project, if the names are bytes. It is a text, in which a name has
    a replacement character for each gap. -/
def rawRelativePath (hasManifest : RawLocation → Bool) (file : RawLocation) : Text :=
  match nearest hasManifest file with
  | some dir => ['/'].intercalate ((file.drop dir.length).map Utf8.decodeLossy)
  | none => Utf8.decodeLossy (0x2F :: [0x2F].intercalate file)

/-- Where names are texts, the project sees a file by the path that is computed. -/
theorem rawRelativePath_toUtf8 (tree : FileTree) {file : Location} (h : file.IsPlain)
    {hasManifest : RawLocation → Bool}
    (hagree : ∀ dir, dir <+: file →
      hasManifest (dir.map Text.toUtf8) = tree.isFile (inDirectory (Location.path dir))) :
    rawRelativePath hasManifest (file.map Text.toUtf8) = relativePath tree file.path := by
  rw [rawRelativePath, nearest_map, nearest_congr hagree, relativePath, root?_path tree h]
  cases hdir : nearest (fun dir => tree.isFile (inDirectory (Location.path dir))) file with
  | none =>
      have hpath : (0x2F :: [0x2F].intercalate (file.map Text.toUtf8) : List UInt8) =
          Text.toUtf8 file.path.text := by
        rw [Location.path, Text.toUtf8_cons, Text.toUtf8_intercalate]
        rfl
      simp only [Option.map_none]
      rw [hpath, Utf8.decodeLossy_toUtf8]
  | some dir =>
      obtain ⟨inside, rfl⟩ := prefix_of_nearest hdir
      simp only [Option.map_some]
      rw [Location.components_path h, Location.components_path h.append_left, List.map_append,
        List.length_cons, List.drop_succ_cons, List.drop_left, List.drop_left, List.map_map]
      -- A text has no gaps to replace.
      have hread : Utf8.decodeLossy ∘ Text.toUtf8 = id := funext Utf8.decodeLossy_toUtf8
      rw [hread, List.map_id]

/-! ### Paths that are too long -/

/-- A path is as long as its names, with a slash before each. -/
theorem byteLength_path {l : Location} (h : l ≠ []) :
    l.path.text.byteLength = (l.map fun name => name.byteLength + 1).sum := by
  induction l with
  | nil => exact absurd rfl h
  | cons name l ih =>
      cases l with
      | nil =>
          rw [Location.path, List.intercalate_singleton, List.map_singleton, List.sum_singleton,
            Text.byteLength]
          exact Nat.add_comm _ _
      | cons other l =>
          rw [List.map_cons, List.sum_cons, ← ih (List.cons_ne_nil other l), Location.path,
            Location.path, List.intercalate_cons_cons]
          have hslash : '/'.utf8Size = 1 := rfl
          simp only [Text.byteLength, Text.byteLength_append, hslash]
          omega

theorem byteLength_replicate (n : Nat) {c : Char} (h : c.utf8Size = 1) :
    Text.byteLength (List.replicate n c) = n := by
  induction n with
  | zero => rfl
  | succ n ih => rw [List.replicate_succ, Text.byteLength, ih, h, Nat.add_comm]

/-- A directory so deep that its path can be looked up, but not that of a manifest in it. -/
def deep : Location :=
  List.replicate 19 (List.replicate 214 'd')

/-- Nothing but that directory, and a manifest in it. -/
def deepProject : FileTree where
  workingDirectory := deep
  node? l :=
    if l = deep ++ ["package.json".toList] then some (.file [])
    else if l <+: deep then some .directory
    else none

theorem node?_deepProject {l : Location} (h : l <+: deep) :
    deepProject.node? l = some .directory := by
  have hne : l ≠ deep ++ ["package.json".toList] := by
    rintro rfl
    simpa using h.length_le
  rw [deepProject]
  simp only [if_neg hne, if_pos h]

/-- No place in this tree is a link. -/
theorem node?_deepProject_ne_link (l : Location) (target : Path) :
    deepProject.node? l ≠ some (.link target) := by
  rw [deepProject]
  dsimp only
  split_ifs <;> exact nofun

theorem isName_of_mem_deep {name : Text} (h : name ∈ deep) : FileTree.IsName name := by
  obtain rfl := List.eq_of_mem_replicate h
  refine ⟨by decide, by decide, ?_, by decide⟩
  rw [byteLength_replicate 214 rfl]
  decide

theorem reached_deep {l : Location} (h : l <+: deep) : deepProject.Reached l := by
  induction l using List.reverseRecOn with
  | nil => exact .root
  | append_singleton l name ih =>
      have habove : l <+: deep := (List.prefix_append l [name]).trans h
      have hmem : name ∈ deep := h.subset (List.mem_append_right l (List.mem_singleton_self name))
      exact .name (ih habove) (node?_deepProject habove) (isName_of_mem_deep hmem)
        (node?_deepProject_ne_link _)

theorem isPlain_deep : deep.IsPlain := by
  intro name hname
  obtain rfl := List.eq_of_mem_replicate hname
  exact ⟨by decide, by decide, by decide, by decide⟩

/-- The path of the directory can be looked up, and that of the manifest cannot. -/
theorem byteLength_deep :
    deep.path.text.byteLength ≤ FileTree.pathLimit ∧
      FileTree.pathLimit < (Location.path (deep ++ ["package.json".toList])).text.byteLength := by
  have hname : Text.byteLength (List.replicate 214 'd') = 214 := byteLength_replicate 214 rfl
  have hmanifest : Text.byteLength "package.json".toList = 12 := by decide
  have hdeep : deep ≠ [] := List.cons_ne_nil _ _
  rw [byteLength_path hdeep, byteLength_path (List.append_ne_nil_of_left_ne_nil hdeep _),
    List.map_append, List.sum_append, deep, List.map_replicate, List.sum_replicate_nat, hname,
    List.map_singleton, List.sum_singleton, hmanifest]
  decide

/-- No directory in this tree has a manifest that is found. -/
theorem not_hasManifest_deepProject {l : Location} (h : l <+: deep) : ¬ HasManifest deepProject l := by
  rintro ⟨place, bytes, hfind⟩
  have hread : deepProject.read (Location.path (l ++ ["package.json".toList])) = .ok bytes := by
    rw [FileTree.read, hfind]
    rfl
  have hne : l ++ ["package.json".toList] ≠ [] :=
    List.append_ne_nil_of_right_ne_nil l (List.cons_ne_nil _ [])
  have hreached : deepProject.Reached (l ++ ["package.json".toList]) :=
    .name (reached_deep h) (node?_deepProject h) ⟨by decide, by decide, by decide, by decide⟩
      (node?_deepProject_ne_link _)
  obtain ⟨hshort, hnode⟩ := (FileTree.read_path_eq_ok_iff hne hreached).mp hread
  -- The one file there is has a path that is refused.
  have hdeep : l ++ ["package.json".toList] = deep ++ ["package.json".toList] := by
    by_contra hother
    rw [deepProject] at hnode
    simp only [if_neg hother] at hnode
    split_ifs at hnode
    cases hnode
  rw [hdeep] at hshort
  obtain ⟨_, -, hlength⟩ := FileTree.exists_of_bind_eq_ok hshort
  rw [if_pos byteLength_deep.2] at hlength
  cases hlength

theorem root?_deepProject : root? deepProject deep.path = none := by
  cases hroot : root? deepProject deep.path with
  | none => rfl
  | some dir =>
      obtain ⟨root, inside, hdivides, -⟩ := exists_divides deepProject isPlain_deep hroot
      exact absurd hdivides.manifest (not_hasManifest_deepProject ⟨inside, hdivides.names.symm⟩)

theorem node?_deepProject_manifest :
    deepProject.node? (deep ++ ["package.json".toList]) = some (.file []) := by
  rw [deepProject]
  simp only [if_true]

/-- The manifest can be read from inside of the directory. -/
theorem read_deepProject : deepProject.read ⟨"package.json".toList⟩ = .ok [] := by
  -- Only what is written counts as the length of a path, and that is one name here.
  have hstep : FileTree.FirstStep deepProject (deepProject.walk 39) deep "package.json".toList []
      (deep ++ ["package.json".toList]) :=
    .name (by decide) (by decide) (by decide) (node?_deepProject_ne_link _) (by rw [FileTree.walkWith])
  have hfollow : deepProject.follow ⟨"package.json".toList⟩ =
      deepProject.walkWith (deepProject.walk 39) deep ["package.json".toList] := rfl
  refine FileTree.read_eq_ok rfl (hfollow.trans ?_) node?_deepProject_manifest
  exact FileTree.walkWith_cons_eq_ok_iff.mpr ⟨node?_deepProject List.prefix_rfl, hstep⟩

/-- Two files beside each other whose names are no texts, in a directory with a manifest. -/
def lookAlike (byte : UInt8) : RawLocation :=
  [Text.toUtf8 "p".toList, byte :: Text.toUtf8 ".js".toList]

/-- Names have to be texts: of two files that differ in a byte that is none, the project sees the same
    path, and its last piece is the name of neither. And a manifest has to be where it can be looked up:
    one whose path is too long is not found, though it can be read from inside of its directory. -/
theorem names_not_divided :
    lookAlike 0xFF ≠ lookAlike 0xFE ∧
      nearest (· = [Text.toUtf8 "p".toList]) (lookAlike 0xFF) = some [Text.toUtf8 "p".toList] ∧
      nearest (· = [Text.toUtf8 "p".toList]) (lookAlike 0xFE) = some [Text.toUtf8 "p".toList] ∧
      rawRelativePath (· = [Text.toUtf8 "p".toList]) (lookAlike 0xFF) =
        rawRelativePath (· = [Text.toUtf8 "p".toList]) (lookAlike 0xFE) ∧
      Text.toUtf8 "p".toList :: (Text.segments '/' (rawRelativePath (· = [Text.toUtf8 "p".toList])
        (lookAlike 0xFF))).map Text.toUtf8 ≠ lookAlike 0xFF ∧
      deep.IsPlain ∧ deep.path.text.byteLength ≤ FileTree.pathLimit ∧
      deepProject.node? (deep ++ ["package.json".toList]) = some (.file []) ∧
      deepProject.read ⟨"package.json".toList⟩ = .ok [] ∧
      root? deepProject deep.path = none :=
  ⟨by decide, by decide, by decide, by decide, by decide, isPlain_deep, byteLength_deep.1,
    node?_deepProject_manifest, read_deepProject, root?_deepProject⟩

end Manifest

end Restyle
