import Restyle.Editor
import Restyle.Neovim.Request
import Restyle.Neovim.Selection

/-!
# Documents in Neovim

A buffer of a running editor, reached by requests.

Opening a document settles which buffer it is, which window shows it and what file it belongs to. The
window is the current one if that shows the buffer, and else the first that does; a buffer may be shown
nowhere, and then it has no cursor. Only a buffer that holds a file is opened, not a terminal or a list
of errors.

A command may come with a range of lines. It becomes the selection: exactly what was selected, if the
marks cover those lines, and whole lines otherwise.

The editor counts rows from one where it means its cursor and its marks.

## Main definitions

* `Document`: A buffer, its window and its file.
* `Document.active?`, `Document.ofNumber?`: Opening the current buffer, or one by its number.
* `Document.editor`: A document as an editor.
-/

namespace Restyle.Neovim

/-- A buffer of a running editor, with its number, the window that shows it, its file and the lines
    that a command is for. -/
structure Document where
  buffer : BufferHandle
  number : Int
  window : Option WindowHandle
  path : Option Path
  commandRange : Option (Int × Int)
  deriving DecidableEq, Repr

namespace Document

variable {m : Type → Type} [Monad m]

/-- Whether a buffer holds a file. -/
def isFileBuffer (rpc : Rpc m) (b : BufferHandle) : ExceptT Failure m Bool := do
  let kind ← rpc.ask (some .bufferKind) (.option b .kind) some
  pure (kind.str? == some [])

/-- The number of the buffer that a window shows. -/
def shownNumber (rpc : Rpc m) (w : WindowHandle) : ExceptT Failure m Int := do
  let b ← rpc.ask none (.windowBuffer w) some
  rpc.ask none (.number ⟨b⟩) Value.int?

/-- The first of several windows that shows a buffer. -/
def firstShowing (rpc : Rpc m) (number : Int) :
    List WindowHandle → ExceptT Failure m (Option WindowHandle)
  | [] => pure none
  | w :: rest => do
    if (← shownNumber rpc w) = number then pure (some w) else firstShowing rpc number rest

/-- The window that shows a buffer, the current one before any other. -/
def findWindow (rpc : Rpc m) (number : Int) : ExceptT Failure m (Option WindowHandle) := do
  let current : WindowHandle := ⟨← rpc.ask (some .currentWindow) .currentWindow some⟩
  if (← shownNumber rpc current) = number then pure (some current)
  else
    let windows ← rpc.ask (some .listWindows) .windows Value.array?
    firstShowing rpc number (windows.map WindowHandle.mk)

/-- Open a buffer, if it holds a file. -/
def ofHandle? (rpc : Rpc m) (buffer : BufferHandle) (number : Int)
    (commandRange : Option (Int × Int)) : ExceptT Failure m (Option Document) := do
  if !(← rpc.ask none (.isValid buffer) Value.bool?) then pure none
  else if !(← isFileBuffer rpc buffer) then pure none
  else
    let name ← rpc.ask (some .bufferName) (.name buffer) Value.str?
    let path := if name = [] then none else some (Path.mk name)
    let window ← findWindow rpc number
    pure (some { buffer, number, window, path, commandRange })

/-- Open the buffer in the current window, for a command with or without a range of lines. -/
def active? (rpc : Rpc m) (commandRange : Option (Int × Int)) :
    ExceptT Failure m (Option Document) := do
  let buffer : BufferHandle := ⟨← rpc.ask (some .currentBuffer) .currentBuffer some⟩
  let number ← rpc.ask none (.number buffer) Value.int?
  ofHandle? rpc buffer number commandRange

/-- Open a buffer by its number. -/
def ofNumber? (rpc : Rpc m) (number : Int) : ExceptT Failure m (Option Document) :=
  ofHandle? rpc (.ofNumber number) number none

/-- One line of a buffer. A row without a line reads as empty. -/
def line (rpc : Rpc m) (b : BufferHandle) (row : Int) : ExceptT Failure m Text := do
  let lines ← rpc.ask (some .oneLine) (.getLines b row (row + 1)) Value.strs?
  pure (lines.getLast?.getD [])

/-- The number of lines of a buffer. -/
def lineCount (rpc : Rpc m) (b : BufferHandle) : ExceptT Failure m Int :=
  rpc.ask none (.lineCount b) Value.int?

/-- The whole text. The newline at its end is implied by the buffer. -/
def text (rpc : Rpc m) (d : Document) : ExceptT Failure m Text := do
  let lines ← rpc.ask (some .allLines) (.getLines d.buffer 0 (-1)) Value.strs?
  pure (['\n'].intercalate lines ++ ['\n'])

/-- The column of a mark on a whole line. -/
def lastColumn : Int := Int64.maxValue.toInt

/-- The marks of the selection for a command on certain lines: where the editor has them, if they are
    on those lines, and around the lines otherwise. -/
def selectionMarks (first last : Int) (start stop : Int × Int) : (Int × Int) × (Int × Int) :=
  if start.1 = first ∧ stop.1 = last then (start, stop) else ((first, 0), (last, lastColumn))

/-- The selection that a command is for. -/
def selection (rpc : Rpc m) (d : Document) : ExceptT Failure m (Option Range) := do
  match d.commandRange with
  | none => pure none
  | some (first, last) =>
    let start ← rpc.ask none (.mark d.buffer .selectionStart) Value.pair?
    let stop ← rpc.ask none (.mark d.buffer .selectionStop) Value.pair?
    let (start, stop) := selectionMarks first last start stop
    if start.1 < 1 ∨ stop.1 < start.1 then pure none
    else
      let startLine ← line rpc d.buffer (start.1 - 1)
      let stopLine ← line rpc d.buffer (stop.1 - 1)
      let count ← lineCount rpc d.buffer
      pure (Selection.range? start stop startLine stopLine count)

/-- The arguments that address a range. -/
def rangeArguments (d : Document) (r : Range) : List Value :=
  [.int d.number, .int r.start.row, .int r.start.column, .int r.stop.row, .int r.stop.column]

/-- The text of a range. -/
def textInRange (rpc : Rpc m) (d : Document) (r : Range) : ExceptT Failure m Text := do
  let text ← rpc.ask (some .rangeText) (.runScript .getText (d.rangeArguments r)) some
  pure (text.str?.getD [])

/-- The lines that a text is stored as. -/
def storedLines (t : Text) : List Text :=
  t.withoutFinalNewline.lines

/-- Replace the whole text. -/
def setText (rpc : Rpc m) (d : Document) (t : Text) : ExceptT Failure m Unit :=
  rpc.ask (some .setLines) (.setLines d.buffer (storedLines t)) fun _ => some ()

/-- Replace the text of a range. What stands there is read first if the range ends where the buffer
    does. -/
def setTextInRange (rpc : Rpc m) (d : Document) (r : Range) (t : Text) : ExceptT Failure m Unit := do
  let count ← lineCount rpc d.buffer
  let lastLine ← line rpc d.buffer (count - 1)
  let atEnd := Selection.reachesEnd r count lastLine
  let source ← if atEnd then d.textInRange rpc r else pure []
  let arguments := d.rangeArguments r ++ [.str (Selection.fit t source atEnd)]
  rpc.ask (some .setRangeText) (.runScript .setText arguments) fun _ => some ()

/-- The cursor. Where no window shows the buffer there is none, and its start stands for it. -/
def cursor (rpc : Rpc m) (d : Document) : ExceptT Failure m Point :=
  match d.window with
  | none => pure {}
  | some w => do
    let (row, column) ← rpc.ask none (.cursor w) Value.pair?
    pure ⟨(row - 1).toNat, column.toNat⟩

/-- The row that the cursor is moved to, counted from one. -/
def cursorRow (row : Nat) (count : Int) : Int :=
  min (row + 1) (max count 1)

/-- Move the cursor. The row is brought into the buffer; for the column the editor does so itself. -/
def setCursor (rpc : Rpc m) (d : Document) (p : Point) : ExceptT Failure m Unit :=
  match d.window with
  | none => pure ()
  | some w => do
    let count ← lineCount rpc d.buffer
    rpc.ask (some .restoreCursor) (.setCursor w (cursorRow p.row count) p.column) fun _ => some ()

/-- Whether the document differs from its file. -/
def isModified (rpc : Rpc m) (d : Document) : ExceptT Failure m Bool := do
  let flag ← rpc.ask (some .modifiedFlag) (.option d.buffer .modified) some
  pure (flag.bool?.getD false)

/-- The language scope, which is the file type; an empty one is none. -/
def scope (rpc : Rpc m) (d : Document) : ExceptT Failure m (Option Text) := do
  let filetype ← rpc.ask (some .filetype) (.option d.buffer .filetype) some
  pure (filetype.str?.filter (· ≠ []))

/-- A document as an editor. -/
def editor (rpc : Rpc m) (d : Document) : Editor m where
  path := pure d.path
  isModified := d.isModified rpc
  scope := d.scope rpc
  text := d.text rpc
  selection := d.selection rpc
  textInRange r := d.textInRange rpc r
  setText t := d.setText rpc t
  setTextInRange r t := d.setTextInRange rpc r t
  cursor := d.cursor rpc
  setCursor p := d.setCursor rpc p

end Document

end Restyle.Neovim
