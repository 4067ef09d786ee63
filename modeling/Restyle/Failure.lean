import Restyle.FileTree
import Restyle.Json.Outline

/-!
# Failures

Why an operation could not be carried out, and how that is told.

A failure is its cause: a file that could not be read, a request that an editor refused, a setting of
the wrong type. What the user reads follows from it. It is a chain that goes from what was attempted
to what went wrong, and it ends, where the cause lies outside, in a fault of a document or an error of
the file system.

## Main definitions

* `RpcError`: The answer of an editor that refuses a request.
* `Activity`: What a request was made for.
* `Failure`: Why an operation could not be carried out.
* `Failure.chain`: What the user reads, outermost first.
-/

namespace Restyle

/-- The answer of an editor that refuses a request: an error with its number, or anything else. -/
inductive RpcError where
  | numbered (code : Int) (message : Text)
  | other (message : Text)
  deriving DecidableEq, Repr

/-- The error as a text. -/
def RpcError.message : RpcError → Text
  | .numbered code message => (toString code).toList ++ " - ".toList ++ message
  | .other message => "Unknown error type: ".toList ++ message

/-- What a request to an editor was made for, where that is told. -/
inductive Activity where
  | currentBuffer
  | currentWindow
  | listWindows
  | bufferKind
  | bufferName
  | modifiedFlag
  | filetype
  | allLines
  | oneLine
  | rangeText
  | setLines
  | setRangeText
  | restoreCursor
  | apiInfo
  | register
  | releaseSave
  deriving DecidableEq, Repr

/-- What is told of an activity that failed. -/
def Activity.message : Activity → Text
  | .currentBuffer => "Failed to get current buffer".toList
  | .currentWindow => "Failed to get current window".toList
  | .listWindows => "Failed to list windows".toList
  | .bufferKind => "Failed to get buftype".toList
  | .bufferName => "Failed to get buffer name".toList
  | .modifiedFlag => "Failed to get modified option".toList
  | .filetype => "Failed to get filetype".toList
  | .allLines => "Failed to get buffer lines".toList
  | .oneLine => "Failed to get buffer line".toList
  | .rangeText => "Failed to get text in range".toList
  | .setLines => "Failed to set buffer lines".toList
  | .setRangeText => "Failed to set text in range".toList
  | .restoreCursor => "Failed to restore cursor".toList
  | .apiInfo => "Failed to get API info".toList
  | .register => "Failed to register save hooks and command".toList
  | .releaseSave => "Failed to release save hook".toList

/-- Why an operation could not be carried out. -/
inductive Failure where
  | read (path : Path) (cause : FileError)
  | write (path : Path) (cause : FileError)
  | resolve (path : Path) (cause : FileError)
  | settings (cause : Json.Fault)
  | settingsFile (path : Path) (cause : Json.Fault)
  | noSettingsDirectory
  | noBackingFile
  | connect (cause : FileError)
  | noChannel
  /-- A request was refused. -/
  | request (activity : Option Activity) (cause : RpcError)
  /-- A request was answered with a value of another kind than the documented one. An editor that answers
      as documented is no cause of this. -/
  | unexpectedReply (activity : Option Activity)
  deriving DecidableEq, Repr

/-- A part of what the user reads: a message, or a cause that lies outside. -/
inductive Failure.Link where
  | message (t : Text)
  | document (fault : Json.Fault)
  | file (error : FileError)
  deriving DecidableEq, Repr

/-- What the user reads of a fault in the settings. -/
def Failure.settingsLinks (cause : Json.Fault) : List Failure.Link :=
  [.message "Invalid JSON for Configuration".toList, .document cause]

/-- What the user reads, from what was attempted to what went wrong. -/
def Failure.chain : Failure → List Failure.Link
  | .read path cause => [.message ("Failed to read ".toList ++ path.text), .file cause]
  | .write path cause => [.message ("Failed to write ".toList ++ path.text), .file cause]
  | .resolve path cause => [.message ("Failed to resolve ".toList ++ path.text), .file cause]
  | .settings cause => settingsLinks cause
  | .settingsFile path cause =>
    .message ("Failed to parse ".toList ++ path.text) :: settingsLinks cause
  | .noSettingsDirectory => [.message "Failed to determine config directory".toList]
  | .noBackingFile => [.message "Buffer has no backing file".toList]
  | .connect cause => [.message "Failed to connect to Neovim socket".toList, .file cause]
  | .noChannel => [.message "API info did not contain a channel id".toList]
  | .request activity cause =>
    (activity.map fun a => Link.message a.message).toList ++ [.message cause.message]
  | .unexpectedReply activity =>
    (activity.map fun a => Link.message a.message).toList ++
      [.message "unexpected reply".toList]

/-- The message that stands for the whole failure. -/
def Failure.headline (f : Failure) : Text :=
  match f.chain with
  | .message t :: _ => t
  | _ => []

end Restyle
