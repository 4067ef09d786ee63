import Restyle.CommandLine.Arguments
import Restyle.Manifest
import Restyle.Settings.Source

/-!
# Surveys

Which part of the file system a run may look at.

A run works on a snapshot, so the snapshot has to hold every place the run is going to ask about. These
are known from the arguments and the environment: the settings file, the files to fix, the manifests
beside and above them, and every directory on the way. A link leads to places that are not known before
the link itself is found, so what a run may look at is said given what was found so far, and a snapshot
is complete once this names no new place.

## Main definitions

* `Survey.visited`: The locations that looking a path up passes.
* `Survey.locations`: The locations that a run may look at.
* `Survey.tree`: The snapshot, from what was found.
* `Survey.changes`: The files that a run has changed.
-/

namespace Restyle.CommandLine.Survey

/-- The locations that following segments passes up to the first link, the first and the last
    included. -/
def passedWith (tree : FileTree) (followLink : Location → List Text → List Location) :
    Location → List Text → List Location
  | location, [] => [location]
  | location, segment :: rest =>
    location ::
      if Path.isFiller segment then passedWith tree followLink location rest
      else if segment = ['.', '.'] then passedWith tree followLink location.dropLast rest
      else
        match tree.node? (location ++ [segment]) with
        | some (.link target) =>
          (location ++ [segment]) :: followLink (target.origin location) (target.stops ++ rest)
        | _ => passedWith tree followLink (location ++ [segment]) rest

/-- The locations that following segments passes, and so many links. -/
def passed (tree : FileTree) : Nat → Location → List Text → List Location
  | 0 => passedWith tree fun _ _ => []
  | links + 1 => passedWith tree (passed tree links)

/-- The locations that looking a path up passes. -/
def visited (tree : FileTree) (p : Path) : List Location :=
  passed tree FileTree.linkLimit (p.origin tree.workingDirectory) p.stops

/-- A location and every directory above it. -/
def withDirectories (location : Location) : List Location :=
  (List.range (location.length + 1)).map location.take

/-- The places of the manifests beside and above a location. -/
def manifests (location : Location) : List Location :=
  (withDirectories location).map (· ++ [Manifest.fileName])

/-- The locations that looking a path up passes, and every directory above them. -/
def stops (tree : FileTree) (p : Path) : List Location :=
  ((visited tree p).flatMap withDirectories).eraseDups

/-- The locations that fixing a path may look at. -/
def ofFixed (tree : FileTree) (p : Path) : List Location :=
  stops tree p ++ ((stops tree p).flatMap manifests).eraseDups.flatMap fun l => stops tree l.path

/-- The locations that a run may look at, given what was found so far. -/
def locations (tree : FileTree) (e : Environment) (arguments : List Text) : List Location :=
  let settings := match Settings.defaultPath e with
    | .ok p => stops tree p
    | .error _ => []
  let fixed := match Request.ofArguments arguments with
    | .run (.fix paths) => paths.flatMap (ofFixed tree)
    | _ => []
  (settings ++ withDirectories tree.workingDirectory ++ fixed).eraseDups

/-- The snapshot, from what was found at which location. -/
def tree (here : Location) (found : List (Location × Node)) : FileTree :=
  { workingDirectory := here, node? := fun l => (found.find? (·.1 = l)).map (·.2) }

/-- The contents of a file that a run has changed. -/
def change? (before after : FileTree) (l : Location) : Option (Location × List UInt8) :=
  match after.node? l with
  | some (.file bytes) => if before.node? l = some (.file bytes) then none else some (l, bytes)
  | _ => none

/-- The files among some locations that a run has changed, with their contents. -/
def changes (before after : FileTree) (among : List Location) :
    List (Location × List UInt8) :=
  among.filterMap (change? before after)

end Restyle.CommandLine.Survey
