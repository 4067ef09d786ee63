import Restyle.FileTree
import Restyle.Settings

/-!
# Manifests

The nearest manifest of a document, and what it says.

A project is the directory of the nearest manifest, looked for in the document's path itself and then
in everything above it. Every question about a project goes to that one file. If it cannot be read, or
is no JSON, or lacks the section asked for, the question has no answer; a manifest further up is never
asked instead.

## Main definitions

* `Manifest.root?`: The directory of the nearest manifest.
* `Manifest.section?`: A section of it.
* `Manifest.dependencies?`: What the development of the project depends on.
* `Manifest.Options`, `Manifest.options?`: The options of a style's package.
* `Manifest.relativePath`: The path of a document as seen from its project.
* `Style.resolve`: The style of a document.
-/

namespace Restyle

namespace Manifest

/-- The name of a manifest. -/
def fileName : Text := "package.json".toList

/-- The section with what the development of a project depends on. -/
def dependenciesKey : Text := "devDependencies".toList

/-- The manifest of a directory. -/
def inDirectory (dir : Path) : Path :=
  dir.join ⟨fileName⟩

/-- The nearest directory with a manifest, from a path upwards. -/
def root? (tree : FileTree) (start : Path) : Option Path :=
  start.ancestors.find? fun dir => tree.isFile (inDirectory dir)

/-- The manifest of a directory as a value, if it can be read as one. -/
def read? (tree : FileTree) (dir : Path) : Option Json := do
  let t ← (tree.readText (inDirectory dir)).toOption
  (Json.parse t).toOption

/-- A section of the nearest manifest. -/
def section? (tree : FileTree) (start : Path) (key : Text) : Option Json := do
  let dir ← root? tree start
  let manifest ← read? tree dir
  manifest.get? key

/-- What the development of the nearest project depends on. -/
def dependencies? (tree : FileTree) (start : Path) : Option (List (Text × Json)) :=
  match section? tree start dependenciesKey with
  | some (.object members) => some members
  | _ => none

/-- The options of a style's package: the patterns of files that are never formatted, and the rest as
    it stands. -/
structure Options where
  ignore : List Text := []
  other : List (Text × Json) := []
  deriving BEq, Repr, Inhabited

namespace Options

/-- The key of the patterns. -/
def ignoreKey : Text := "ignore".toList

/-- Options from the members of an object in a document. The patterns may be given only once. -/
def ofMembers : Option (List Text) → List (Text × Json) → Json.Members → Except Json.Fault Options
  | ignore, other, .close => .ok { ignore := ignore.getD [], other }
  | _, _, .stop fault | _, _, .dangling fault => .error fault
  | _, _, .unkeyed _ => .error .malformed
  | ignore, other, .member key value rest => do
    let name ← key.text
    if name = ignoreKey then
      if ignore.isSome then throw .mistyped
      let patterns ← Json.Decoder.list Json.Decoder.text value
      ofMembers (some patterns) other rest
    else
      let v ← Json.Decoder.value (Json.maxDepth - 1) value
      ofMembers ignore (Json.insert name v other) rest

/-- Options in a document. -/
def decoder : Json.Decoder Options
  | .object members => ofMembers none [] members
  | o => .error o.refusal

/-- Options from a value, if it is an object whose patterns are strings. -/
def ofJson? : Json → Option Options
  | .object members => do
    let ignore ← match Json.lookup? ignoreKey members with
      | none => some []
      | some (.array items) => items.mapM Json.text?
      | some _ => none
    some { ignore, other := members.filter (·.1 ≠ ignoreKey) }
  | _ => none

end Options

/-- The options of a style's package in the nearest manifest. -/
def options? (tree : FileTree) (start : Path) (key : Text) : Option Options := do
  Options.ofJson? (← section? tree start key)

/-- The path of a document as seen from its project, or its path as it stands outside of projects. Names
    are texts, so each is shown as it is. -/
def relativePath (tree : FileTree) (file : Path) : Text :=
  match root? tree file with
  | some dir => ['/'].intercalate (file.components.drop dir.components.length)
  | none => file.text

end Manifest

/-- The style of a document: the one in the settings, or the one its project declares. -/
def Style.resolve (tree : FileTree) (settings : Settings) (start : Path) : Style :=
  if !settings.checkStyleDevDependencies then settings.style
  else
    match Manifest.dependencies? tree start with
    | some dependencies => Style.ofDependencies dependencies
    | none => .unstyled

end Restyle
