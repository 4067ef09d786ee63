import Restyle.Editor
import Restyle.Eligibility
import Restyle.Pipeline
import Restyle.Settings.Source

/-!
# Formatting a Document

The two occasions on which a document is formatted: a command, and the moment before it is saved.

A run reads everything it needs before it changes anything: the cursor, the selection if that is what
is to be formatted, and the text. The text then goes through the pipeline. If that fails the document
stays as it is, and so it does if the result is what was there, which spares the user a pointless step
of undo. Last the cursor is put back where it was, whatever happened in between, and a failure to do
so is not worth reporting.

Before a save there are four reasons to leave a document alone. They are looked at in the order of
what it costs to find out.

## Main definitions

* `Formatter`: What formatting draws on.
* `Formatter.run`: One run.
* `Formatter.command`: The command, for the selection or the document.
* `Formatter.format`: A run in a given style.
* `Formatter.beforeSave`: The moment before a save.
-/

namespace Restyle

/-- What formatting draws on: the file tree, the settings and the libraries. -/
structure Formatter (m : Type → Type) where
  tree : FileTree
  source : Settings.Source
  libraries : Libraries m

/-- What is read of a document before it is changed. -/
structure FormatRequest where
  source : Text
  selection : Option Range
  cursor : Point
  deriving DecidableEq, Repr

/-- Why a document is not formatted before a save. -/
inductive SkipReason where
  | noPath
  | unmodified
  | formatOnSaveDisabled
  | notSupported
  deriving DecidableEq, Repr

/-- What was done before a save. -/
inductive SaveOutcome where
  | formatted
  | skipped (reason : SkipReason)
  deriving DecidableEq, Repr

namespace Formatter

variable {m : Type → Type} [Monad m]

/-- The settings at this moment. -/
def settings (f : Formatter m) : Settings :=
  f.source.snapshot f.tree

/-- Read the whole text. -/
def captureAll (e : Editor m) (cursor : Point) : ExceptT Failure m FormatRequest := do
  let source ← e.text
  pure { source, selection := none, cursor }

/-- The selection, if that is what is to be formatted. -/
def selected (e : Editor m) (selectionOnly : Bool) : ExceptT Failure m (Option Range) :=
  if selectionOnly then e.selection else pure none

/-- Read the text of a selection. One without text stands for the whole document. -/
def captureSelected (e : Editor m) (cursor : Point) (selection : Option Range) :
    ExceptT Failure m FormatRequest :=
  match selection.filter (!·.isEmpty) with
  | none => captureAll e cursor
  | some range => do
    let source ← e.textInRange range
    if source = [] then captureAll e cursor
    else pure { source, selection := some range, cursor }

/-- Read what is to be formatted. -/
def capture (e : Editor m) (selectionOnly : Bool) : ExceptT Failure m FormatRequest := do
  let cursor ← e.cursor
  let selection ← selected e selectionOnly
  captureSelected e cursor selection

/-- Write the result, unless it is what was there. -/
def apply (e : Editor m) (request : FormatRequest) (result : Text) : ExceptT Failure m Unit :=
  if result = request.source then pure ()
  else
    match request.selection with
    | some range => e.setTextInRange range result
    | none => e.setText result

/-- One run, with the settings and the style decided. -/
def run (f : Formatter m) (e : Editor m) (settings : Settings) (style : Style)
    (selectionOnly : Bool) : ExceptT Failure m Unit := ExceptT.mk do
  match ← (capture e selectionOnly).run with
  | .error failure => pure (.error failure)
  | .ok request =>
    let path ← e.path
    let outcome ← Pipeline.transform f.libraries request.source style settings.usePrettier
      (path.bind Path.parent?)
    let applied ← (apply e request (outcome.toOption.getD request.source)).run
    let _ ← (e.setCursor request.cursor).run
    pure applied

/-- Where a project is looked for: from the document, or from the working directory. -/
def projectStart (f : Formatter m) (path : Option Path) : Path :=
  path.getD f.tree.workingDirectory.path

/-- The command: format the selection, or the document if nothing is selected. Without an editor
    there is nothing to do. -/
def command (f : Formatter m) : Option (Editor m) → ExceptT Failure m Unit
  | none => pure ()
  | some e => do
    let settings := f.settings
    let path ← e.path
    f.run e settings (Style.resolve f.tree settings (f.projectStart path)) true

/-- Format in a given style. Without an editor there is nothing to do. -/
def format (f : Formatter m) (style : Style) (selectionOnly : Bool) :
    Option (Editor m) → ExceptT Failure m Unit
  | none => pure ()
  | some e => f.run e f.settings style selectionOnly

/-- The moment before a save: format the document if there is no reason to leave it alone. -/
def beforeSave (f : Formatter m) (e : Editor m) : ExceptT Failure m SaveOutcome := do
  match ← e.path with
  | none => pure (.skipped .noPath)
  | some path =>
    if !(← e.isModified) then pure (.skipped .unmodified)
    else
      let settings := f.settings
      let scope ← e.scope
      if !settings.formatsOnSave scope then pure (.skipped .formatOnSaveDisabled)
      else
        let style := Style.resolve f.tree settings path
        if !Eligibility.isEligible f.tree path settings style then pure (.skipped .notSupported)
        else
          f.run e settings style false
          pure .formatted

end Formatter

end Restyle
