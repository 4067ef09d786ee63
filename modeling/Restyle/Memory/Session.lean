import Restyle.Formatter
import Restyle.Memory.Buffer

/-!
# Sessions

A buffer, the files around it, and what is done to them step by step.

A session is one buffer and one file tree. Its steps are the things that happen to a document between
being opened and being saved: it is edited, the cursor and the selection move, it is formatted. Only
saving changes the tree, and a step that fails changes nothing.

## Main definitions

* `Session`: A buffer and a file tree.
* `Session.Step`: What can happen.
* `Session.perform`: What it does.
-/

namespace Restyle

/-- A buffer and the files around it. -/
structure Session where
  tree : FileTree
  buffer : Buffer := {}

namespace Session

/-- What can happen to a buffer. -/
inductive Step where
  | new (t : Text)
  | load (p : Path)
  | setPath (p : Path)
  | setScope (scope : Option Text)
  | placeCursor (p : Point)
  | select (r : Range)
  | edit (t : Text)
  | save
  | setText (t : Text)
  | setTextInRange (r : Range) (t : Text)
  | setCursor (p : Point)
  | command
  | format (style : Style) (selectionOnly : Bool)
  | beforeSave
  deriving DecidableEq, Repr

variable {m : Type → Type} [Monad m]

/-- The formatter of a session, with libraries that may depend on its files. -/
def formatter (source : Settings.Source) (libraries : FileTree → Libraries m) (s : Session) :
    Formatter (StateT Buffer m) :=
  { tree := s.tree, source, libraries := (libraries s.tree).lift }

/-- Run an editor operation on the buffer. -/
def edit {α : Type} (s : Session) (operation : ExceptT Failure (StateT Buffer m) α) :
    m (Except Failure α × Session) := do
  let (outcome, buffer) ← operation.run.run s.buffer
  pure (outcome, { s with buffer })

/-- A session with another buffer. -/
def withBuffer (s : Session) (buffer : Buffer) :
    Except Failure (Option SaveOutcome) × Session :=
  (.ok none, { s with buffer })

/-- What a step does. Only the moment before a save has something to tell. -/
def perform (source : Settings.Source) (libraries : FileTree → Libraries m) (s : Session) :
    Step → m (Except Failure (Option SaveOutcome) × Session)
  | .new t => pure (s.withBuffer (.ofText t))
  | .load p =>
    match Buffer.load s.tree p with
    | .ok buffer => pure (s.withBuffer buffer)
    | .error failure => pure (.error failure, s)
  | .setPath p => pure (s.withBuffer { s.buffer with path := some p })
  | .setScope scope => pure (s.withBuffer { s.buffer with scope })
  | .placeCursor p => pure (s.withBuffer { s.buffer with cursor := p })
  | .select r => pure (s.withBuffer { s.buffer with selection := some r })
  | .edit t => pure (s.withBuffer { s.buffer with text := t })
  | .save =>
    match s.buffer.save s.tree with
    | .ok (buffer, tree) => pure (.ok none, { tree, buffer })
    | .error failure => pure (.error failure, s)
  | .setText t => s.edit (do Buffer.editor.setText t; pure none)
  | .setTextInRange r t => s.edit (do Buffer.editor.setTextInRange r t; pure none)
  | .setCursor p => s.edit (do Buffer.editor.setCursor p; pure none)
  | .command => s.edit (do (s.formatter source libraries).command (some Buffer.editor); pure none)
  | .format style selectionOnly =>
    s.edit (do
      (s.formatter source libraries).format style selectionOnly (some Buffer.editor)
      pure none)
  | .beforeSave => s.edit (some <$> (s.formatter source libraries).beforeSave Buffer.editor)

end Session

end Restyle
