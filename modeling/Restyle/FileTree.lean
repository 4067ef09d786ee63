import Restyle.Path
import Restyle.Text.Utf8

/-!
# File Trees

A snapshot of the file system, and what looking a path up in it gives.

Everything the formatter learns from the disk while it serves one request, which manifest is nearest,
which file is there and what it holds, is a function of the tree at that moment, so the tree is a
plain value: a working directory and, for each location, what is there and whether it may be written.
Only saving a file yields another tree. What can be read need not be writable, so a save can fail after
everything before it went well.

A path is looked up segment by segment, and every place that is left behind on the way has to be a
directory, also for a filler or for `..`. This is why a trailing slash after a file is an error. A link
is followed as soon as it is come upon, so no place that is reached is one. What it is followed to are
the segments of its target, in front of those that are left. Links may lead in a circle, which shows in
their number: for one path only so many are followed.

Names and paths have a greatest length. A name that is too long is found out when its directory is
searched for it, so a directory that is missing comes first. A path that is too long is refused before
anything is looked up, except by `resolve`, which goes from name to name.

## Main definitions

* `Location`: The names that lead from the root to a place.
* `FileTree`: The working directory, the nodes, and where writing is refused.
* `FileTree.nameLimit`, `FileTree.pathLimit`, `FileTree.linkLimit`: The greatest lengths, and the most
  links.
* `FileTree.walk`: Where segments lead from a location.
* `FileTree.locate`: The location a path names, whether or not something is there.
* `FileTree.read`, `FileTree.readText`: The contents of a file.
* `FileTree.write`: The tree after a file was written.
* `FileTree.resolve`: The absolute path without fillers of something that is there.

## Theorems

* `node?_put_self`: A location that a file is put at holds it.
* `node?_put_of_ne`: Putting a file leaves every other location alone.
-/

namespace Restyle

/-- The names that lead from the root to a place. Each of them is a text. -/
abbrev Location := List Text

/-- The absolute path of a location. -/
def Location.path (location : Location) : Path :=
  ⟨'/' :: ['/'].intercalate location⟩

/-- Where a path starts, as seen from a directory. -/
def Path.origin (here : Location) (p : Path) : Location :=
  if p.isAbsolute then [] else here

/-- The segments of a path, without the slash that an absolute one starts with. -/
def Path.stops (p : Path) : List Text :=
  Text.segments '/' (if p.isAbsolute then p.text.drop 1 else p.text)

/-- What is at a location. -/
inductive Node where
  | file (bytes : List UInt8)
  | directory
  /-- A link to what a path names, as seen from the directory that the link is in. -/
  | link (target : Path)
  deriving DecidableEq, Repr

/-- Why the file system refuses. -/
inductive FileError where
  | notFound
  | notADirectory
  | isADirectory
  | invalidName
  | nameTooLong
  | tooManyLinks
  | invalidText
  | permissionDenied
  | connectionRefused
  deriving DecidableEq, Repr

/-- The error as a text, with the number the system has for it. -/
def FileError.message : FileError → Text
  | .notFound => "No such file or directory (os error 2)".toList
  | .notADirectory => "Not a directory (os error 20)".toList
  | .isADirectory => "Is a directory (os error 21)".toList
  | .invalidName => "nul byte found in provided data".toList
  | .nameTooLong => "File name too long (os error 36)".toList
  | .tooManyLinks => "Too many levels of symbolic links (os error 40)".toList
  | .invalidText => "stream did not contain valid UTF-8".toList
  | .permissionDenied => "Permission denied (os error 13)".toList
  | .connectionRefused => "Connection refused (os error 111)".toList

/-- A snapshot of the file system. -/
structure FileTree where
  workingDirectory : Location
  node? : Location → Option Node
  /-- Why no file may be written at a location. -/
  refusal? : Location → Option FileError := fun _ => none

namespace FileTree

/-- The tree with nothing in it. -/
def empty : FileTree :=
  { workingDirectory := [], node? := fun _ => none }

/-- The most bytes that a name can have. -/
def nameLimit : Nat := 255

/-- The most bytes that a path can have. -/
def pathLimit : Nat := 4095

/-- The most links that are followed for one path. -/
def linkLimit : Nat := 40

/-- Follow segments from a location up to the first link. Each place that is left has to be a
    directory. -/
def walkWith (tree : FileTree) (followLink : Location → List Text → Except FileError Location) :
    Location → List Text → Except FileError Location
  | location, [] => .ok location
  | location, segment :: rest =>
    match tree.node? location with
    | none => .error .notFound
    | some .directory =>
      if Path.isFiller segment then tree.walkWith followLink location rest
      else if segment = ['.', '.'] then tree.walkWith followLink location.dropLast rest
      else if nameLimit < segment.byteLength then .error .nameTooLong
      else
        match tree.node? (location ++ [segment]) with
        | some (.link target) => followLink (target.origin location) (target.stops ++ rest)
        | _ => tree.walkWith followLink (location ++ [segment]) rest
    | some _ => .error .notADirectory

/-- Follow segments from a location, and so many links. -/
def walk (tree : FileTree) : Nat → Location → List Text → Except FileError Location
  | 0 => tree.walkWith fun _ _ => .error .tooManyLinks
  | links + 1 => tree.walkWith (tree.walk links)

/-- Where a path leads. -/
def follow (tree : FileTree) (p : Path) : Except FileError Location :=
  tree.walk linkLimit (p.origin tree.workingDirectory) p.stops

/-- Refuse what is no path: a text with a NUL in it, or none at all. -/
def requirePath (p : Path) : Except FileError Unit :=
  if p.text.contains (Char.ofNat 0) then .error .invalidName
  else if p.text = [] then .error .notFound
  else .ok ()

/-- Refuse what is no path, or is too long. -/
def requireShort (p : Path) : Except FileError Unit := do
  requirePath p
  if pathLimit < p.text.byteLength then throw .nameTooLong

/-- The location a path names, whether or not something is there. -/
def locate (tree : FileTree) (p : Path) : Except FileError Location := do
  requireShort p
  tree.follow p

/-- A location with what is there. -/
def occupied (tree : FileTree) (location : Location) : Except FileError (Location × Node) :=
  match tree.node? location with
  | some node => .ok (location, node)
  | none => .error .notFound

/-- What a path names, where it is. -/
def find (tree : FileTree) (p : Path) : Except FileError (Location × Node) := do
  tree.occupied (← tree.locate p)

/-- Whether a path names something. -/
def contains (tree : FileTree) (p : Path) : Bool :=
  (tree.find p).toBool

/-- Whether a path names a file. -/
def isFile (tree : FileTree) (p : Path) : Bool :=
  match tree.find p with
  | .ok (_, .file _) => true
  | _ => false

/-- Whether a path names a directory. -/
def isDirectory (tree : FileTree) (p : Path) : Bool :=
  match tree.find p with
  | .ok (_, .directory) => true
  | _ => false

/-- The bytes of a file. -/
def read (tree : FileTree) (p : Path) : Except FileError (List UInt8) := do
  match ← tree.find p with
  | (_, .file bytes) => pure bytes
  | _ => throw .isADirectory

/-- The contents of a file as text. -/
def readText (tree : FileTree) (p : Path) : Except FileError Text := do
  match Utf8.decode? (← tree.read p) with
  | some text => pure text
  | none => throw .invalidText

/-- Where writing to a path would put a file. A trailing slash asks for a directory, which is found out
    before the last name is looked up. A directory is refused as one, whether or not it may be written. -/
def target (tree : FileTree) (p : Path) : Except FileError Location := do
  requireShort p
  if p.text.getLast? = some '/' then
    let named := p.text.reverse.dropWhile (· = '/')
    let _ ← tree.follow ⟨(named.dropWhile (· ≠ '/')).reverse⟩
    throw .isADirectory
  let location ← tree.follow p
  if tree.node? location = some .directory then throw .isADirectory
  match tree.refusal? location with
  | some cause => throw cause
  | none => pure location

/-- The tree with a file put at a location. -/
def put (tree : FileTree) (location : Location) (bytes : List UInt8) : FileTree :=
  { tree with node? := fun l => if l = location then some (.file bytes) else tree.node? l }

/-- The tree after bytes were written to a path. -/
def write (tree : FileTree) (p : Path) (bytes : List UInt8) : Except FileError FileTree := do
  return tree.put (← tree.target p) bytes

/-- The absolute path, without fillers, of something that is there. -/
def resolve (tree : FileTree) (p : Path) : Except FileError Path := do
  requirePath p
  return (← tree.occupied (← tree.follow p)).1.path

/-- Putting a file leaves every other location alone. -/
theorem node?_put_of_ne (tree : FileTree) {location l : Location} (bytes : List UInt8)
    (h : l ≠ location) : (tree.put location bytes).node? l = tree.node? l := by
  simp [put, h]

/-- A location that a file is put at holds it. -/
@[simp] theorem node?_put_self (tree : FileTree) (location : Location) (bytes : List UInt8) :
    (tree.put location bytes).node? location = some (.file bytes) := by
  simp [put]

end FileTree

end Restyle
