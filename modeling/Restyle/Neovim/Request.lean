import Restyle.Failure
import Restyle.Neovim.Script
import Restyle.Neovim.Value

/-!
# Requests

What is asked of the editor, and how it is put into words.

A request is a method with its parameters. Only the methods that are needed are there, each with the
parameters that vary; the others are the same in every request and are filled in when it is encoded.

Each method has a kind of reply that is documented for it, and an editor is taken to refuse a request or
to answer it with a value of that kind. An answer of another kind is outside of what is described here.
It is given a failure of its own, so that asking always comes to something, and what is said of that
failure and its message says nothing about an editor.

## Main definitions

* `Request`: What is asked.
* `Request.method`, `Request.params`: How it is put.
* `Rpc`: A way to ask.
* `Rpc.ask`: Asking for a value of a certain kind.
-/

namespace Restyle.Neovim

/-- The editor's name for a buffer. -/
structure BufferHandle where
  value : Value
  deriving DecidableEq, Repr, Inhabited

/-- The editor's name for a window. -/
structure WindowHandle where
  value : Value
  deriving DecidableEq, Repr, Inhabited

/-- A buffer by its number. -/
def BufferHandle.ofNumber (n : Int) : BufferHandle :=
  ⟨.int n⟩

/-- The options of a buffer that are looked at. -/
inductive BufferOption where
  | kind
  | modified
  | filetype
  deriving DecidableEq, Repr

/-- The name of an option. -/
def BufferOption.name : BufferOption → Text
  | .kind => "buftype".toList
  | .modified => "modified".toList
  | .filetype => "filetype".toList

/-- The marks around the last selection. -/
inductive Mark where
  | selectionStart
  | selectionStop
  deriving DecidableEq, Repr

/-- The name of a mark. -/
def Mark.name : Mark → Text
  | .selectionStart => ['<']
  | .selectionStop => ['>']

/-- What is asked of the editor. -/
inductive Request where
  | apiInfo
  | currentBuffer
  | currentWindow
  | windows
  | isValid (b : BufferHandle)
  | number (b : BufferHandle)
  | name (b : BufferHandle)
  | option (b : BufferHandle) (o : BufferOption)
  | lineCount (b : BufferHandle)
  /-- The lines from a row up to another; `-1` stands for the end. -/
  | getLines (b : BufferHandle) (first last : Int)
  /-- Replace all lines. -/
  | setLines (b : BufferHandle) (lines : List Text)
  | mark (b : BufferHandle) (m : Mark)
  | windowBuffer (w : WindowHandle)
  | cursor (w : WindowHandle)
  /-- Move the cursor to a row, counted from one, and a column. -/
  | setCursor (w : WindowHandle) (row column : Int)
  | runScript (s : Script) (arguments : List Value)
  deriving DecidableEq, Repr

namespace Request

/-- The method of a request. -/
def method : Request → Text
  | .apiInfo => "nvim_get_api_info".toList
  | .currentBuffer => "nvim_get_current_buf".toList
  | .currentWindow => "nvim_get_current_win".toList
  | .windows => "nvim_list_wins".toList
  | .isValid _ => "nvim_buf_is_valid".toList
  | .number _ => "nvim_buf_get_number".toList
  | .name _ => "nvim_buf_get_name".toList
  | .option _ _ => "nvim_buf_get_option".toList
  | .lineCount _ => "nvim_buf_line_count".toList
  | .getLines _ _ _ => "nvim_buf_get_lines".toList
  | .setLines _ _ => "nvim_buf_set_lines".toList
  | .mark _ _ => "nvim_buf_get_mark".toList
  | .windowBuffer _ => "nvim_win_get_buf".toList
  | .cursor _ => "nvim_win_get_cursor".toList
  | .setCursor _ _ _ => "nvim_win_set_cursor".toList
  | .runScript _ _ => "nvim_execute_lua".toList

/-- The parameters of a request. -/
def params : Request → List Value
  | .apiInfo | .currentBuffer | .currentWindow | .windows => []
  | .isValid b | .number b | .name b | .lineCount b => [b.value]
  | .option b o => [b.value, .str o.name]
  | .getLines b first last => [b.value, .int first, .int last, .bool false]
  | .setLines b lines => [b.value, .int 0, .int (-1), .bool false, .array (lines.map .str)]
  | .mark b m => [b.value, .str m.name]
  | .windowBuffer w | .cursor w => [w.value]
  | .setCursor w row column => [w.value, .array [.int row, .int column]]
  | .runScript s arguments => [.str s.source, .array arguments]

end Request

/-- A way to ask: the answer to a request is a value or a refusal. -/
abbrev Rpc (m : Type → Type) := Request → m (Except RpcError Value)

/-- Ask for a value of a certain kind, the one that is documented for the request. -/
def Rpc.ask {m : Type → Type} [Monad m] {α : Type} (rpc : Rpc m) (activity : Option Activity)
    (request : Request) (content : Value → Option α) : ExceptT Failure m α := ExceptT.mk do
  match ← rpc request with
  | .error cause => pure (.error (.request activity cause))
  | .ok value =>
    match content value with
    | some a => pure (.ok a)
    | none => pure (.error (.unexpectedReply activity))

end Restyle.Neovim
