import Restyle.Failure
import Restyle.Position

/-!
# Editors

What formatting needs of the place where a document is edited.

An editor is a record of operations on one document. Those that ask or change something may be refused
and then say why; only the path of the document is known without asking. The operations act in a monad,
which holds the document where it is kept in memory, and the conversation where it is kept elsewhere.

## Main definitions

* `Editor`: The operations on a document.
-/

namespace Restyle

/-- The operations on a document that is being edited. -/
structure Editor (m : Type → Type) where
  /-- The file the document is kept in, if it has one. -/
  path : m (Option Path)
  /-- Whether the document differs from its file. -/
  isModified : ExceptT Failure m Bool
  /-- The language scope, for settings that differ by it. -/
  scope : ExceptT Failure m (Option Text)
  text : ExceptT Failure m Text
  selection : ExceptT Failure m (Option Range)
  textInRange : Range → ExceptT Failure m Text
  setText : Text → ExceptT Failure m Unit
  setTextInRange : Range → Text → ExceptT Failure m Unit
  cursor : ExceptT Failure m Point
  /-- Move the cursor, to the nearest place there is. -/
  setCursor : Point → ExceptT Failure m Unit

end Restyle
