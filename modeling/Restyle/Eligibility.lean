import Restyle.Ignore.Pattern
import Restyle.Manifest

/-!
# Eligible Files

Which files are formatted.

A file is eligible by its extension, unless its project excludes it. The patterns of a project are
matched with the path as seen from the directory of its manifest, the same directory that the patterns
come from, and settings can ask for them not to be looked at.

## Main definitions

* `Eligibility.extensions`: The extensions of files that are formatted.
* `Eligibility.isSupported`: Whether a path is formatted, given the options of its project.
* `Eligibility.isEligible`: Whether a file in a tree is.
-/

namespace Restyle.Eligibility

/-- The extensions of files that are formatted, with their dot. -/
def extensions : List Text := [".js".toList, ".jsx".toList]

/-- Whether a path has an extension that is formatted. -/
def hasExtension (path : Text) : Bool :=
  match Path.extension? ⟨path⟩ with
  | some extension => extensions.contains ('.' :: extension)
  | none => false

/-- Whether a path, as seen from its project, is formatted under the options of the project. -/
def isSupported (relative : Text) (settings : Settings) (options : Option Manifest.Options) : Bool :=
  let excluded := match options with
    | some options => settings.honorPackageConfig && Ignore.anyAccepts relative options.ignore
    | none => false
  !excluded && hasExtension relative

/-- Whether a file is formatted in a certain style. -/
def isEligible (tree : FileTree) (file : Path) (settings : Settings) (style : Style) : Bool :=
  let options :=
    if settings.honorPackageConfig then Manifest.options? tree file style.optionsKey else none
  isSupported (Manifest.relativePath tree file) settings options

end Restyle.Eligibility
