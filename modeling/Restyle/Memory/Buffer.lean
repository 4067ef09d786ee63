import Restyle.Editor

/-!
# Buffers in Memory

A document kept in memory, with or without a file behind it.

A buffer remembers the text that its file holds, so whether it is modified is a matter of comparing two
texts, and undoing a change by hand makes it clean again. Replacing text clears the selection, since it
no longer says what it said; the cursor stays where it is until it is moved, and only moving it brings
it into the text.

## Main definitions

* `Buffer`: The document and what is remembered with it.
* `Buffer.load`, `Buffer.save`: Between a buffer and its file.
* `Buffer.textInRange`, `Buffer.setTextInRange`: Reading and replacing a part.
* `Buffer.editor`: A buffer as an editor.
* `Buffer.scopeOf`: The scope of a path.
-/

namespace Restyle

/-- A document in memory. -/
structure Buffer where
  path : Option Path := none
  scope : Option Text := none
  text : Text := []
  /-- The text its file holds. -/
  saved : Text := []
  cursor : Point := {}
  selection : Option Range := none
  deriving DecidableEq, Repr, Inhabited

namespace Buffer

/-- A clean buffer without a file. -/
def ofText (t : Text) : Buffer :=
  { text := t, saved := t }

/-- The scope of an extension. -/
def scopeOfExtension (extension : Text) : Option Text :=
  if ["js".toList, "mjs".toList, "cjs".toList].contains extension then some "javascript".toList
  else if extension = "jsx".toList then some "javascriptreact".toList
  else none

/-- The scope of a path, by its extension. -/
def scopeOf (p : Path) : Option Text :=
  p.extension?.bind scopeOfExtension

/-- The buffer of a file. -/
def load (tree : FileTree) (p : Path) : Except Failure Buffer :=
  match tree.readText p with
  | .ok t => .ok { ofText t with path := some p, scope := scopeOf p }
  | .error e => .error (.read p e)

/-- Write the text to the file behind the buffer. -/
def save (b : Buffer) (tree : FileTree) : Except Failure (Buffer × FileTree) :=
  match b.path with
  | none => .error .noBackingFile
  | some p =>
    match tree.write p b.text.toUtf8 with
    | .ok tree => .ok ({ b with saved := b.text }, tree)
    | .error e => .error (.write p e)

/-- Whether the text differs from the file's. -/
def isModified (b : Buffer) : Bool :=
  b.text != b.saved

/-- The byte offsets of a range. One that ends before it starts is empty, at its start. -/
def span (b : Buffer) (r : Range) : Span :=
  let start := b.text.offset r.start
  ⟨start, max (b.text.offset r.stop) start⟩

/-- The text in a range. -/
def textInRange (b : Buffer) (r : Range) : Text :=
  b.text.slice (b.span r).start (b.span r).stop

/-- Replace the whole text. -/
def setText (b : Buffer) (t : Text) : Buffer :=
  { b with text := t, selection := none }

/-- Replace the text in a range. -/
def setTextInRange (b : Buffer) (r : Range) (t : Text) : Buffer :=
  { b with text := b.text.splice (b.span r).start (b.span r).stop t, selection := none }

/-- Move the cursor to a point, or the nearest one there is. -/
def setCursor (b : Buffer) (p : Point) : Buffer :=
  { b with cursor := b.text.clamp p }

/-- A buffer as an editor. Nothing is ever refused. -/
def editor {m : Type → Type} [Monad m] : Editor (StateT Buffer m) where
  path := return (← get).path
  isModified := return (← get).isModified
  scope := return (← get).scope
  text := return (← get).text
  selection := return (← get).selection
  textInRange r := return (← get).textInRange r
  setText t := modify (·.setText t)
  setTextInRange r t := modify (·.setTextInRange r t)
  cursor := return (← get).cursor
  setCursor p := modify (·.setCursor p)

end Buffer

end Restyle
