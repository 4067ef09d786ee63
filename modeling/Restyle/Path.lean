import Restyle.Text

/-!
# Paths

Paths as texts, with the parts that a slash separates.

A path keeps the text it was written with, because that text is shown to the user and handed to child
processes. What it names depends only on its components, and two details of the text carry no meaning:
an empty segment, from a doubled or trailing slash, and the segment `.` anywhere but at the front.
Both are *fillers*. A leading slash and a leading `.` are not: each is a component of its own, the
*anchor*.

A path is a text here, and so is every name in it. A system may have names of bytes that are no text, and
these are left out: no path leads to them, and nothing that is said of all paths is said of theirs. What
differs for them is that they can be shown only with replacement characters, where different names may
look the same.

Walking up drops one component at a time, together with the fillers before it, and keeps the rest of
the text. The walk ends at the root, or at the empty path for a relative one.

## Main definitions

* `Path.components`: The components of a path.
* `Path.ancestors`: A path and everything above it, nearest first.
* `Path.parent?`: The nearest path above.
* `Path.extension?`: What follows the last dot of the file name.
* `Path.join`: A path below a directory.
-/

namespace Restyle

/-- A path, as it was written. -/
structure Path where
  text : Text
  deriving DecidableEq, Repr

namespace Path

instance : Inhabited Path := ⟨⟨[]⟩⟩

/-- Whether a path starts at the root. -/
def isAbsolute (p : Path) : Bool :=
  p.text.head? == some '/'

/-- The leading slash, or the leading `.` of a relative path that has one. -/
def anchor (p : Path) : Text :=
  match p.text with
  | '/' :: _ => ['/']
  | ['.'] => ['.']
  | '.' :: '/' :: _ => ['.']
  | _ => []

/-- The segments behind the anchor. -/
def body (p : Path) : List Text :=
  Text.segments '/' (p.text.drop p.anchor.length)

/-- Whether a segment names nothing: it is empty or `.`. -/
def isFiller (segment : Text) : Bool :=
  segment == [] || segment == ['.']

/-- The components of a path: its anchor and the segments that name something. -/
def components (p : Path) : List Text :=
  (if p.anchor = [] then [] else [p.anchor]) ++ p.body.filter (!isFiller ·)

/-- The paths above one with this anchor and these segments, the last segment first. -/
def above (anchor : Text) : List Text → List Path
  | [] => if anchor = ['.'] then [⟨[]⟩] else []
  | segment :: before =>
    if isFiller segment then above anchor before
    else
      ⟨anchor ++ ['/'].intercalate (before.dropWhile isFiller).reverse⟩ :: above anchor before

/-- Everything above a path, nearest first. -/
def properAncestors (p : Path) : List Path :=
  above p.anchor p.body.reverse

/-- A path and everything above it, nearest first. -/
def ancestors (p : Path) : List Path :=
  p :: p.properAncestors

/-- The nearest path above; the root and the empty path have none. -/
def parent? (p : Path) : Option Path :=
  p.properAncestors.head?

/-- The last component, if it is the name of a file or directory. -/
def fileName? (p : Path) : Option Text :=
  match p.components.getLast? with
  | some name => if name = ['/'] ∨ name = ['.'] ∨ name = ['.', '.'] then none else some name
  | none => none

/-- What follows the last dot of the file name. A name has no extension if it has no dot, or none
    but its first character. -/
def extension? (p : Path) : Option Text := do
  let name ← p.fileName?
  match name.reverse.dropWhile (· ≠ '.') with
  | _ :: _ :: _ => some (name.reverse.takeWhile (· ≠ '.')).reverse
  | _ => none

/-- The path of `name` below the directory `dir`. An absolute name stands for itself. -/
def join (dir name : Path) : Path :=
  if name.isAbsolute then name
  else if dir.text = [] ∨ dir.text.getLast? = some '/' then ⟨dir.text ++ name.text⟩
  else ⟨dir.text ++ '/' :: name.text⟩

end Path

end Restyle
