import Restyle.CommandLine.Survey
import Restyle.Proofs.Memory.BeforeSave
import Restyle.Proofs.Project.Manifest

/-!
# Only the Nearest Manifest Counts

Two trees in which a path belongs to the same project are the same to everything that is asked about
that path.

The tree is looked at in five places, for the style, for the path as the project sees it, for the options
of a package, for eligibility, and through these before a save. Each makes its own search. What they have
in common is that all of them read the tree through one function, a section of the nearest manifest, or
through the directory alone. So it is enough that these two agree, and then nothing else in the trees
can make a difference: not a manifest further up, although it would be found if the nearest one were not
there, and not a section that the nearest one lacks and another has. The path is a text, as all paths are.

## Main definitions

* `SameProject`: Two trees agree on the nearest manifest of a path.

## Theorems

* `SameProject.section?_eq`: They agree on every section.
* `SameProject.beforeSave_eq`: A buffer fares the same before a save.
* `nearest_decides`: All five questions have the same answers.
-/

namespace Restyle

namespace Manifest

/-- Two trees agree on the project of a path: the nearest manifest is in the same directory and has the
    same bytes, or there is none in both. -/
structure SameProject (t₁ t₂ : FileTree) (path : Path) : Prop where
  root : root? t₁ path = root? t₂ path
  bytes : ∀ dir, root? t₁ path = some dir → t₁.read (inDirectory dir) = t₂.read (inDirectory dir)

namespace SameProject

variable {t₁ t₂ : FileTree} {path : Path}

/-- Every section of the nearest manifest is the same. -/
theorem section?_eq (h : SameProject t₁ t₂ path) :
    ∀ key, section? t₁ path key = section? t₂ path key := by
  intro key
  unfold section?
  rw [← h.root]
  cases hroot : root? t₁ path with
  | none => rfl
  | some dir =>
      have hread : read? t₁ dir = read? t₂ dir := by
        rw [read?, read?, FileTree.readText, FileTree.readText, h.bytes dir hroot]
      rw [Option.bind_eq_bind, Option.bind_some, hread]
      rfl

theorem relativePath_eq (h : SameProject t₁ t₂ path) :
    relativePath t₁ path = relativePath t₂ path := by
  rw [relativePath, relativePath, h.root]

theorem options?_eq (h : SameProject t₁ t₂ path) (key : Text) :
    options? t₁ path key = options? t₂ path key := by
  rw [options?, options?, h.section?_eq]

theorem resolve_eq (h : SameProject t₁ t₂ path) (settings : Settings) :
    Style.resolve t₁ settings path = Style.resolve t₂ settings path := by
  rw [Style.resolve, Style.resolve, dependencies?, dependencies?, h.section?_eq]

theorem isEligible_eq (h : SameProject t₁ t₂ path) (settings : Settings) (style : Style) :
    Eligibility.isEligible t₁ path settings style =
      Eligibility.isEligible t₂ path settings style := by
  rw [Eligibility.isEligible, Eligibility.isEligible, h.relativePath_eq, h.options?_eq]

/-- Before a save a buffer fares the same, whatever the libraries do with what they are asked. -/
theorem beforeSave_eq {m : Type → Type} [Monad m] [LawfulMonad m] (h : SameProject t₁ t₂ path)
    (l : Libraries m) (settings : Settings) {b : Buffer} (hpath : b.path = some path) :
    ((Formatter.onBuffer t₁ (.fixed settings) l).beforeSave Buffer.editor).run.run b =
      ((Formatter.onBuffer t₂ (.fixed settings) l).beforeSave Buffer.editor).run.run b := by
  have hsnapshot : ∀ tree, Settings.Source.snapshot tree (.fixed settings) = settings := fun _ => rfl
  -- Once the style is decided a run does not look at the tree any more.
  have hformat : ∀ style,
      ((Formatter.onBuffer t₁ (.fixed settings) l).format style false (some Buffer.editor)).run.run b =
        ((Formatter.onBuffer t₂ (.fixed settings) l).format style false
          (some Buffer.editor)).run.run b := fun _ => rfl
  rw [Buffer.run_beforeSave, Buffer.run_beforeSave]
  simp only [hpath, hsnapshot, h.resolve_eq, h.isEligible_eq, hformat]

end SameProject

/-- All that is asked about a path has the same answers in two trees that agree on its project: its
    style, its path as the project sees it, the options of every package, whether it is eligible, and
    what happens to a buffer of it before a save. The last is the same computation in every monad that
    the libraries may act in, so the libraries are asked the same and the buffer ends up the same. -/
theorem nearest_decides {t₁ t₂ : FileTree} {path : Path} (h : SameProject t₁ t₂ path) :
    (∀ settings, Style.resolve t₁ settings path = Style.resolve t₂ settings path) ∧
      relativePath t₁ path = relativePath t₂ path ∧
      (∀ key, options? t₁ path key = options? t₂ path key) ∧
      (∀ settings style, Eligibility.isEligible t₁ path settings style =
        Eligibility.isEligible t₂ path settings style) ∧
      ∀ {m : Type → Type} [Monad m] [LawfulMonad m] (l : Libraries m) (settings : Settings)
        (b : Buffer), b.path = some path →
        ((Formatter.onBuffer t₁ (.fixed settings) l).beforeSave Buffer.editor).run.run b =
          ((Formatter.onBuffer t₂ (.fixed settings) l).beforeSave Buffer.editor).run.run b :=
  ⟨h.resolve_eq, h.relativePath_eq, h.options?_eq, h.isEligible_eq,
    fun l settings _ hpath => h.beforeSave_eq l settings hpath⟩

/-- A project whose manifest says nothing, inside a directory with some other manifest. -/
def nested (outer : Text) : FileTree :=
  CommandLine.Survey.tree []
    [([], .directory), (["package.json".toList], .file (Text.toUtf8 outer)), (["p".toList], .directory),
      (["p".toList, "package.json".toList], .file (Text.toUtf8 "\x7b\x7d".toList)),
      (["p".toList, "a.js".toList], .file (Text.toUtf8 "a".toList))]

/-- The manifest of the outer directory names a style, and excludes everything. -/
def outerManifest : Text :=
  "\x7b\"devDependencies\":\x7b\"standard\":\"1\"\x7d,\"standard\":\x7b\"ignore\":[\"**\"]\x7d\x7d".toList

/-- A buffer of the project that has changed since it was saved. -/
def nestedBuffer : Buffer :=
  { path := some ⟨"/p/a.js".toList⟩, text := "a;".toList, saved := "a".toList }

theorem nearest_decides_nested :
    SameProject (nested outerManifest) (nested []) ⟨"/p/a.js".toList⟩ ∧
      nestedBuffer.path = some ⟨"/p/a.js".toList⟩ ∧
      LawfulMonad Id ∧
      relativePath (nested outerManifest) ⟨"/p/a.js".toList⟩ =
        relativePath (nested []) ⟨"/p/a.js".toList⟩ ∧
      ∀ settings, ((Formatter.onBuffer (nested outerManifest) (.fixed settings)
          (Buffer.fixedAnswer "b".toList)).beforeSave Buffer.editor).run.run nestedBuffer =
        ((Formatter.onBuffer (nested []) (.fixed settings)
          (Buffer.fixedAnswer "b".toList)).beforeSave Buffer.editor).run.run nestedBuffer := by
  have hroot : root? (nested outerManifest) ⟨"/p/a.js".toList⟩ = some ⟨"/p".toList⟩ := by decide
  have hsame : SameProject (nested outerManifest) (nested []) ⟨"/p/a.js".toList⟩ := by
    refine ⟨by decide, fun dir hdir => ?_⟩
    rw [hroot] at hdir
    rw [← Option.some.inj hdir]
    decide
  rcases nearest_decides hsame with ⟨-, hseen, -, -, hbuffer⟩
  exact ⟨hsame, rfl, inferInstance, hseen,
    fun settings => hbuffer (Buffer.fixedAnswer "b".toList) settings nestedBuffer rfl⟩

end Manifest

end Restyle
