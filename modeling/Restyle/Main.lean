import Restyle.CommandLine.Run
import Restyle.CommandLine.Survey

/-!
# The Program

The program on a real file system.

It takes a snapshot of the places that the run may look at, runs, writes the changed files back, and
prints. It starts no process and opens no connection by itself: the libraries and the editor belong to
whoever embeds `CommandLine.run` in a `World` of their own, so here a request for either is refused and
the refusal is told like any other.

## Main definitions

* `refusingWorld`: A world without processes and editors.
* `main`: The program.
-/

namespace Restyle.CommandLine

/-- A world without processes and editors, in which notices are collected, newest first. -/
def refusingWorld : World (StateM (List Notice)) where
  spawn _ := pure (.error .permissionDenied)
  connect _ := pure (.error .connectionRefused)
  notify n := modify (n :: ·)

/-- The variables of the environment that are looked at. -/
def readEnvironment : IO Environment := do
  let values ← Environment.variables.mapM fun name => do
    return (← IO.getEnv (String.ofList name)).map (·.toList)
  return {
    settingsFile := values[0]?.join
    settingsDirectory := values[1]?.join
    home := values[2]?.join
    editorAddress := values[3]?.join }

/-- The directory that the program was started in. -/
def readWorkingDirectory : IO Location := do
  let here ← IO.FS.realPath "."
  return Path.body ⟨here.toString.toList⟩

/-- What is at a location. One that stands for another is a link to it, and what cannot be looked at is
    not there. -/
def look (l : Location) : IO (Option (Location × Node)) := do
  try
    let place ← IO.FS.realPath (String.ofList l.path.text)
    let target := place.toString.toList
    if target ≠ l.path.text then return some (l, .link ⟨target⟩)
    if ← place.isDir then return some (l, .directory)
    return some (l, .file (← IO.FS.readBinFile place).toList)
  catch _ => return none

/-- Look at the places that a run may look at, in so many rounds. Links that are found in one round lead
    to the places of the next. -/
def explore (here : Location) (e : Environment) (arguments : List Text) :
    Nat → List Location → List (Location × Node) → IO (List Location × List (Location × Node))
  | 0, seen, found => return (seen, found)
  | rounds + 1, seen, found => do
    let due := (Survey.locations (Survey.tree here found) e arguments).filter (!seen.contains ·)
    if due.isEmpty then return (seen, found)
    explore here e arguments rounds (seen ++ due) (found ++ (← due.filterMapM look))

/-- Write a file. -/
def writeBack (change : Location × List UInt8) : IO Unit :=
  IO.FS.writeBinFile (String.ofList change.1.path.text) ⟨change.2.toArray⟩

/-- Run on a snapshot of the file system, and carry over what the run has changed. -/
def runOnDisk (arguments : List Text) : IO UInt32 := do
  let environment ← readEnvironment
  let here ← readWorkingDirectory
  let (locations, found) ← explore here environment arguments (FileTree.linkLimit + 2) [] []
  let tree := Survey.tree here found
  let (outcome, notices) := (run refusingWorld environment tree arguments).run []
  (Survey.changes tree outcome.tree locations).forM writeBack
  IO.print (String.ofList outcome.output)
  for notice in notices.reverse do
    IO.eprintln (String.ofList notice.text)
  if let some failure := outcome.failure then
    IO.eprintln (String.ofList (errorMark ++ failure.headline))
  return outcome.status.toUInt32

end Restyle.CommandLine

/-- The program. -/
def main (arguments : List String) : IO UInt32 :=
  Restyle.CommandLine.runOnDisk (arguments.map (·.toList))
