import Restyle.Failure
import Restyle.Pipeline
import Restyle.Position

/-!
# Notices

What the user is told while the program runs.

Some things go wrong without ending a run: a file is left as it was if its library fails, and the
defaults stand in for settings that cannot be read. Each is told in a notice, at the time it happens.
A failure that does end the run is told last, behind the word `Error`. Notices and failures quote what
processes and paths contain, newlines included, so a line that starts with that word may also come from
within a notice.

## Main definitions

* `Notice`: What went wrong.
* `Notice.text`: How it is told.
* `errorLine?`: The first line that starts like the report of a failure.
* `Libraries.notifying`: Libraries whose failures are told.
-/

namespace Restyle.CommandLine

/-- Something that went wrong without ending the run. -/
inductive Notice where
  | settings (cause : Failure)
  | preformatter (cause : AdapterError)
  | fixer (failure : FixerFailure)
  deriving DecidableEq, Repr

namespace Notice

/-- A named value in a notice, the name in italics and the sign behind it dimmed. -/
def labelled (name : String) (value : Text) : Text :=
  (" \x1b[3m" ++ name ++ "\x1b[0m\x1b[2m=\x1b[0m").toList ++ value

/-- The notice as it is told, less the time and place in front of it. -/
def text : Notice → Text
  | .settings cause =>
    "Failed to load configuration, using defaults".toList ++ labelled "error" cause.headline
  | .preformatter cause =>
    "prettier failed, continuing without it".toList ++ labelled "error" cause.message
  | .fixer failure =>
    "Error transforming text, keeping original".toList ++ labelled "error" failure.message ++
      ((Style.ofPackage? failure.package).map fun s => labelled "style" s.name).getD []

end Notice

/-- The lines of a text as they are read back. A carriage return at the end is not part of a line. -/
def readLines (t : Text) : List Text :=
  t.lines.map fun line => if line.getLast? = some '\r' then line.dropLast else line

/-- What the report of a failure starts with. -/
def errorMark : Text := "Error: ".toList

/-- The first line that starts like the report of a failure, among some notices and the failure that
    ended the run. -/
def errorLine? (notices : List Notice) (failure : Option Failure) : Option Text :=
  let reports := failure.toList.map fun f => errorMark ++ f.headline
  ((notices.map Notice.text ++ reports).flatMap readLines).find? errorMark.isPrefixOf

end Restyle.CommandLine

namespace Restyle.Libraries

variable {m : Type → Type} [Monad m]

open CommandLine (Notice)

/-- The same libraries, with their failures told. -/
def notifying (notify : Notice → m Unit) (l : Libraries m) : Libraries m where
  prettify text options workdir := do
    let answer ← l.prettify text options workdir
    if let .error cause := answer then notify (.preformatter cause)
    return answer
  lintFix package text workdir := do
    let answer ← l.lintFix package text workdir
    if let .error cause := answer then notify (.fixer { package, cause })
    return answer

end Restyle.Libraries
