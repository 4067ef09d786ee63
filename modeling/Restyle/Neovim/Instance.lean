import Restyle.Neovim.Lines
import Restyle.Neovim.Request

/-!
# Editor Instances

The other end of a connection, played by an editor with one window.

A scripted peer says what any answers lead to; an instance says what the answers are. It shows one
buffer in one window and carries out every request in the way that is documented for it. Requests for
another buffer or window are refused, and so is a change outside of the lines. With it, what a whole
run does to the lines of a buffer is a function of the instance.

## Main definitions

* `Instance`: An editor with a buffer and a window.
* `Instance.answer`: Its answer to a request, and what becomes of it.
* `Instance.rpc`: Asking an instance.
-/

namespace Restyle.Neovim

/-- An editor with one buffer, which one window shows. -/
structure Instance where
  channel : Int := 1
  /-- The channel that the hooks and the command are registered for. -/
  owner : Option Int := none
  buffer : Int := 1
  window : Int := 1000
  name : Text := []
  kind : Text := []
  filetype : Text := []
  isModified : Bool := false
  lines : List Text := [[]]
  /-- The row of the cursor, counted from one, and its column. -/
  cursor : Int × Int := (1, 0)
  /-- Where the last selection starts and ends, in the same way. -/
  selection : (Int × Int) × (Int × Int) := ((0, 0), (0, 0))
  deriving DecidableEq, Repr, Inhabited

namespace Instance

/-- The refusal of a request for something that is not there. -/
def outOfBounds : RpcError :=
  .numbered 1 "Index out of bounds".toList

/-- A position as it is sent. -/
def position (p : Int × Int) : Value :=
  .array [.int p.1, .int p.2]

/-- A point from the two numbers it is sent as. -/
def point? (row column : Int) : Option Point :=
  if 0 ≤ row ∧ 0 ≤ column then some ⟨row.toNat, column.toNat⟩ else none

/-- The text between two points, as it is sent. -/
def sent (lines : List Text) (r : Range) : Except RpcError Value :=
  if Lines.isPlace lines r.start && Lines.isPlace lines r.stop && decide (r.start ≤ r.stop) then
    .ok (.str (Lines.between lines r))
  else if Lines.isOnLine lines r.start && Lines.isOnLine lines r.stop &&
      decide (r.start ≤ r.stop) then
    .ok (.bin (Lines.bytesBetween lines r))
  else .error outOfBounds

/-- The column that a cursor comes to on a row, counted from one. -/
def cursorColumn (lines : List Text) (row column : Int) : Int :=
  Text.floorBoundary (lines.getD (row.toNat - 1) []) column.toNat

/-- The editor with other lines. It always has one, and the cursor stays on them. -/
def withLines (i : Instance) (lines : List Text) : Instance :=
  let lines := if lines = [] then [[]] else lines
  let row := min i.cursor.1 lines.length
  { i with lines, isModified := true, cursor := (row, cursorColumn lines row i.cursor.2) }

/-- Run one of the scripts. -/
def runScript (i : Instance) : Script → List Value → Except RpcError Value × Instance
  | .setup, [.int c] => (.ok .nil, { i with owner := some c })
  | .teardown, [.int c] =>
    if i.owner = some c then (.ok (.bool true), { i with owner := none })
    else (.ok (.bool false), i)
  | .releaseSave, _ => (.ok .nil, i)
  | .getText, [.int b, .int row, .int column, .int row', .int column'] =>
    match point? row column, point? row' column' with
    | some p, some q => (if b = i.buffer then sent i.lines ⟨p, q⟩ else .error outOfBounds, i)
    | _, _ => (.error outOfBounds, i)
  | .setText, [.int b, .int row, .int column, .int row', .int column', .str t] =>
    match point? row column, point? row' column' with
    | some p, some q =>
      if b = i.buffer ∧ Lines.isPlace i.lines p ∧ Lines.isPlace i.lines q ∧ p ≤ q then
        (.ok .nil, i.withLines (Lines.replace i.lines ⟨p, q⟩ t))
      else (.error outOfBounds, i)
    | _, _ => (.error outOfBounds, i)
  | _, _ => (.error outOfBounds, i)

/-- Move the cursor. The column is brought onto the line. -/
def moveCursor (i : Instance) (row column : Int) : Except RpcError Value × Instance :=
  if 1 ≤ row ∧ row ≤ i.lines.length ∧ 0 ≤ column then
    (.ok .nil, { i with cursor := (row, cursorColumn i.lines row column) })
  else (.error outOfBounds, i)

/-- The value of an option. -/
def optionValue (i : Instance) : BufferOption → Value
  | .kind => .str i.kind
  | .modified => .bool i.isModified
  | .filetype => .str i.filetype

/-- The position of a mark. -/
def markPosition (i : Instance) : Mark → Int × Int
  | .selectionStart => i.selection.1
  | .selectionStop => i.selection.2

/-- The answer to a request that changes nothing. -/
def reading (i : Instance) (valid : Bool) (v : Value) : Except RpcError Value × Instance :=
  (if valid then .ok v else .error outOfBounds, i)

/-- The answer to a request, and what becomes of the editor. -/
def answer (i : Instance) : Request → Except RpcError Value × Instance
  | .apiInfo => i.reading true (.array [.int i.channel, .map []])
  | .currentBuffer => i.reading true (.int i.buffer)
  | .currentWindow => i.reading true (.int i.window)
  | .windows => i.reading true (.array [.int i.window])
  | .isValid b => i.reading true (.bool (b == .ofNumber i.buffer))
  | .number b => i.reading (b == .ofNumber i.buffer) (.int i.buffer)
  | .name b => i.reading (b == .ofNumber i.buffer) (.str i.name)
  | .option b o => i.reading (b == .ofNumber i.buffer) (i.optionValue o)
  | .lineCount b => i.reading (b == .ofNumber i.buffer) (.int i.lines.length)
  | .getLines b first last =>
    i.reading (b == .ofNumber i.buffer) (.array ((Lines.rows i.lines first last).map .str))
  | .setLines b lines =>
    if b == .ofNumber i.buffer then (.ok .nil, i.withLines lines) else (.error outOfBounds, i)
  | .mark b m => i.reading (b == .ofNumber i.buffer) (position (i.markPosition m))
  | .windowBuffer w => i.reading (w == ⟨.int i.window⟩) (.int i.buffer)
  | .cursor w => i.reading (w == ⟨.int i.window⟩) (position i.cursor)
  | .setCursor w row column =>
    if w == ⟨.int i.window⟩ then i.moveCursor row column else (.error outOfBounds, i)
  | .runScript s arguments => i.runScript s arguments

/-- Asking an instance. -/
def rpc {m : Type → Type} [Monad m] : Rpc (StateT Instance m) :=
  fun r => modifyGet (·.answer r)

end Instance

end Restyle.Neovim
