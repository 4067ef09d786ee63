import Restyle.Eligibility
import Restyle.Proofs.Project.Manifest

/-!
# Which Files Are Eligible

The decision about a file, in terms of the tree, the settings and the text of its path.

Two things are asked of a file. Its path, as the project sees it, has to end in a name with one of the
extensions, and its project must not exclude it. The nearest manifest is looked for once for each of the
two, and reading it can go wrong in many ways, but each of them comes to the same: nothing is listed, so
nothing is excluded. What is left is one equivalence, in which a file is excluded only by a pattern of
the very directory that it is seen from. It is about files whose names are texts, so that a project sees
the names that they have.

## Theorems

* `hasExtension_iff`: A path has an extension that is formatted, as a statement about its text.
* `isSupported_iff`: What excludes a path is one of the patterns that are listed.
* `isEligible_iff`: A file is eligible if and only if it has such a name and is not excluded.
-/

namespace Restyle.Eligibility

/-- A path has an extension that is formatted if its last name is a stem and that extension. -/
theorem hasExtension_iff (path : Text) :
    hasExtension path = true ↔
      ∃ stem extension, stem ≠ [] ∧ extension ∈ extensions ∧
        Path.EndsIn ⟨path⟩ (stem ++ extension) := by
  have hdots : ∀ stem : Text, ∀ extension ∈ extensions, stem ++ extension ≠ ['.', '.'] := by
    intro stem extension hextension heq
    -- Both extensions end in a letter, and `..` does not.
    have hlast := congrArg List.getLast? heq
    simp only [extensions, List.mem_cons, List.not_mem_nil, or_false] at hextension
    rcases hextension with rfl | rfl <;> simp at hlast
  unfold hasExtension
  constructor
  · intro h
    split at h
    · next extension hextension =>
        rcases (Path.extension?_eq_some_iff _ _).mp hextension with ⟨stem, hstem, -, hname⟩
        refine ⟨stem, '.' :: extension, hstem, by simpa using h, ?_⟩
        exact ((Path.fileName?_eq_some_iff _ _).mp hname).1
    · exact absurd h Bool.false_ne_true
  · rintro ⟨stem, extension, hstem, hmem, hname⟩
    have hfile := (Path.fileName?_eq_some_iff _ _).mpr ⟨hname, hdots stem extension hmem⟩
    have hdot : ∃ letters, extension = '.' :: letters ∧ '.' ∉ letters := by
      simp only [extensions, List.mem_cons, List.not_mem_nil, or_false] at hmem
      rcases hmem with rfl | rfl
      · exact ⟨"js".toList, rfl, by decide⟩
      · exact ⟨"jsx".toList, rfl, by decide⟩
    rcases hdot with ⟨letters, rfl, hletters⟩
    rw [(Path.extension?_eq_some_iff _ _).mpr ⟨stem, hstem, hletters, hfile⟩]
    simpa using hmem

/-- A path is formatted if it has such an extension and is not excluded by one of the patterns that the
    options list. -/
theorem isSupported_iff (relative : Text) (settings : Settings) (options : Option Manifest.Options) :
    isSupported relative settings options = true ↔
      hasExtension relative = true ∧ ¬ (settings.honorPackageConfig = true ∧
        ∃ pattern, (∃ o, options = some o ∧ pattern ∈ o.ignore) ∧
          Ignore.accepts relative pattern = true) := by
  unfold isSupported
  cases options with
  | none => simp
  | some o =>
      cases settings.honorPackageConfig with
      | false => simp
      | true => simp [Ignore.anyAccepts, and_comm]

/-- A file is eligible if and only if it is seen under a name of a stem and an extension that is
    formatted, and no pattern excludes it. A pattern excludes it if the settings let it, if the nearest
    manifest lists it in the section of the style, and if it matches the file as seen from the directory
    of that manifest. -/
theorem isEligible_iff (tree : FileTree) (file : Path) (settings : Settings) (style : Style) :
    isEligible tree file settings style = true ↔
      (∃ seen stem extension, Manifest.SeenAs tree file seen ∧ stem ≠ [] ∧
        extension ∈ [".js".toList, ".jsx".toList] ∧ Path.EndsIn ⟨seen⟩ (stem ++ extension)) ∧
      ¬ (settings.honorPackageConfig = true ∧ ∃ dir rest pattern,
        Manifest.IsNearest tree file dir ∧ file.components = dir.components ++ rest ∧
          Manifest.ListsIn tree dir
            (if style = .semiStandard then "semistandard".toList else "standard".toList) pattern ∧
          Ignore.accepts (['/'].intercalate rest) pattern = true) := by
  have hkey : (if style = .semiStandard then "semistandard".toList else "standard".toList) =
      style.optionsKey := by
    cases style <;> rfl
  rw [hkey]
  -- The name is that of the path as it is seen, and there is only one such path.
  have hname : (∃ seen stem extension, Manifest.SeenAs tree file seen ∧ stem ≠ [] ∧
      extension ∈ extensions ∧ Path.EndsIn ⟨seen⟩ (stem ++ extension)) ↔
      hasExtension (Manifest.relativePath tree file) = true := by
    rw [hasExtension_iff]
    constructor
    · rintro ⟨seen, stem, extension, hseen, hrest⟩
      rw [(Manifest.seenAs_iff tree file seen).mp hseen] at hrest
      exact ⟨stem, extension, hrest⟩
    · rintro ⟨stem, extension, hrest⟩
      exact ⟨_, stem, extension, (Manifest.seenAs_iff tree file _).mpr rfl, hrest⟩
  -- The patterns are those of the nearest manifest, and they are matched from its directory.
  have hlisted : (∃ dir rest pattern, Manifest.IsNearest tree file dir ∧
      file.components = dir.components ++ rest ∧
      Manifest.ListsIn tree dir style.optionsKey pattern ∧
      Ignore.accepts (['/'].intercalate rest) pattern = true) ↔
      ∃ pattern, (∃ o, Manifest.options? tree file style.optionsKey = some o ∧ pattern ∈ o.ignore) ∧
        Ignore.accepts (Manifest.relativePath tree file) pattern = true := by
    constructor
    · rintro ⟨dir, rest, pattern, hdir, hrest, hpattern, haccepts⟩
      refine ⟨pattern, (Manifest.exists_pattern_iff _ _ _ _).mpr ⟨dir, hdir, hpattern⟩, ?_⟩
      rwa [Manifest.relativePath_of_isNearest hdir hrest]
    · rintro ⟨pattern, hpattern, haccepts⟩
      rcases (Manifest.exists_pattern_iff _ _ _ _).mp hpattern with ⟨dir, hdir, hpattern⟩
      rcases Path.exists_components_of_mem_ancestors hdir.mem_ancestors with ⟨rest, hrest⟩
      rw [Manifest.relativePath_of_isNearest hdir hrest] at haccepts
      exact ⟨dir, rest, pattern, hdir, hrest, hpattern, haccepts⟩
  rw [show [".js".toList, ".jsx".toList] = extensions from rfl, hname, hlisted, isEligible,
    isSupported_iff]
  cases settings.honorPackageConfig <;> simp

end Restyle.Eligibility
