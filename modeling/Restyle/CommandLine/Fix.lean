import Restyle.Formatter
import Restyle.Memory.Buffer

/-!
# Fixing Files

Formatting files where they are kept, one after the other.

Each file is loaded into a buffer, formatted, and written back if that changed it. A file that is not
eligible is passed over. The first one that cannot be found, read or written ends the run; what was
fixed before it stays fixed.

## Main definitions

* `Fix.Report`: What happened to a file.
* `Fix.file`: Fixing one file.
* `Fix.files`: Fixing several.
-/

namespace Restyle.CommandLine.Fix

/-- What happened to a file. -/
inductive Verdict where
  | skipped
  | fixed
  | unchanged
  deriving DecidableEq, Repr

/-- The word for it. -/
def Verdict.word : Verdict → Text
  | .skipped => "skipped".toList
  | .fixed => "fixed".toList
  | .unchanged => "unchanged".toList

/-- What happened to which file. -/
structure Report where
  verdict : Verdict
  path : Path
  deriving DecidableEq, Repr

/-- A report as a line. -/
def Report.line (r : Report) : Text :=
  r.verdict.word ++ ' ' :: r.path.text ++ ['\n']

/-- The end of a run: the files as they are now, what was reported, and what ended the run early. -/
structure Outcome where
  tree : FileTree
  reports : List Report
  failure : Option Failure

variable {m : Type → Type} [Monad m]

/-- Write a formatted buffer back, if formatting changed it. -/
def writeBack (tree : FileTree) (path : Path) (b : Buffer) : Except Failure (Report × FileTree) :=
  if b.isModified then do
    let (_, tree) ← b.save tree
    pure (⟨.fixed, path⟩, tree)
  else pure (⟨.unchanged, path⟩, tree)

/-- Fix one file. -/
def file (source : Settings.Source) (libraries : FileTree → Libraries m) (tree : FileTree)
    (p : Path) : m (Except Failure (Report × FileTree)) :=
  match tree.resolve p with
  | .error cause => pure (.error (.resolve p cause))
  | .ok path =>
    let settings := source.snapshot tree
    let style := Style.resolve tree settings path
    if !Eligibility.isEligible tree path settings style then
      pure (.ok (⟨.skipped, path⟩, tree))
    else
      match Buffer.load tree path with
      | .error failure => pure (.error failure)
      | .ok buffer => do
        let f : Formatter (StateT Buffer m) :=
          { tree, source, libraries := (libraries tree).lift }
        match ← ((f.format style false (some Buffer.editor)).run).run buffer with
        | (.ok (), buffer) => pure (writeBack tree path buffer)
        | (.error failure, _) => pure (.error failure)

/-- Fix several files, up to the first that fails. -/
def files (source : Settings.Source) (libraries : FileTree → Libraries m) :
    FileTree → List Path → m Outcome
  | tree, [] => pure { tree, reports := [], failure := none }
  | tree, p :: rest => do
    match ← file source libraries tree p with
    | .error failure => pure { tree, reports := [], failure := some failure }
    | .ok (report, tree) =>
      let outcome ← files source libraries tree rest
      pure { outcome with reports := report :: outcome.reports }

end Restyle.CommandLine.Fix
