import Restyle.Child.Script
import Restyle.Json.Printer
import Restyle.Pipeline
import Restyle.Text.Blank

/-!
# Child Processes

The libraries, run in a process of their own.

One process is started for each call. It gets a script to run and one JSON request on its input, and
it answers by its exit status, its output and its error stream. The verdict on it is strict: its text
is taken only if it was given the whole request, ends with status zero, and its whole output is one reply
of the agreed form without an error. A crash that leaves half a reply behind, or a warning printed before
it, must never end up in a document.

How a process is started is left to the caller.

## Main definitions

* `Child.Command`: What is started.
* `Child.Output`: What it leaves behind.
* `Child.verdict`: What its answer is.
* `Child.libraries`: The libraries, given a way to start a process.
-/

namespace Restyle.Child

/-- A process to start: the program, the script it runs, its input and the directory it runs in. -/
structure Command where
  program : Text
  script : Text
  input : Text
  workdir : Option Path
  deriving DecidableEq, Repr

/-- The arguments of the program. -/
def Command.arguments (c : Command) : List Text :=
  ["-e".toList, c.script]

/-- What a process leaves behind. -/
structure Output where
  status : Nat
  stdout : List UInt8
  stderr : List UInt8
  /-- Why its input could not be passed on to it, or its output not be fetched. -/
  interruption? : Option FileError := none
  deriving DecidableEq, Repr

/-- A reply: what was asked for, or an error. -/
structure Reply (α : Type) where
  ok : Option α := none
  error : Option Text := none

open Json (Decoder)

/-- A reply in a document. Given as an array it has both parts. -/
def Reply.decoder {α : Type} (payload : Decoder α) : Decoder (Reply α) :=
  Decoder.record
    [{ name := "ok".toList
       set := fun o => (fun v r => { r with ok := v }) <$> Decoder.optional payload o
       omissible := false },
     { name := "error".toList
       set := fun o => (fun v r => { r with error := v }) <$> Decoder.optional .text o
       omissible := false }]
    {}

/-- What a reply says. An error counts more than a result beside it. -/
def Reply.outcome {α : Type} : Reply α → Except AdapterError α
  | { error := some message, .. } => .error (.library message)
  | { ok := some a, .. } => .ok a
  | _ => .error (.library "empty reply".toList)

/-- The answer of a process that has ended. One that was interrupted is not looked at. -/
def verdict {α : Type} (payload : Decoder α) (o : Output) : Except AdapterError α :=
  match o.interruption? with
  | some cause => .error (.transfer cause)
  | none =>
    if o.status ≠ 0 then .error (.exit o.status (Utf8.decodeLossy o.stderr).trim)
    else
      match Json.decode (Reply.decoder payload) (Utf8.pieces o.stdout) with
      | .ok reply => reply.outcome
      | .error fault => .error (.reply fault)

/-- The request to fix a text. -/
def lintRequest (package text : Text) : Json :=
  .object [("package".toList, .string package), ("text".toList, .string text)]

/-- The request to pre-format a text. -/
def prettierRequest (text : Text) (options : PrettierOptions) : Json :=
  .object [("text".toList, .string text), ("options".toList, options.toJson)]

variable {m : Type → Type} [Monad m]

/-- Run one script. A directory that is not there is left out. -/
def call {α : Type} (spawn : Command → m (Except FileError Output)) (tree : FileTree)
    (program script : Text) (request : Json) (payload : Decoder α) (workdir : Option Path) :
    m (Except AdapterError α) := do
  let command : Command :=
    { program, script, input := request.compact, workdir := workdir.filter tree.isDirectory }
  match ← spawn command with
  | .ok output => pure (verdict payload output)
  | .error cause => pure (.error (.spawn program cause))

/-- The libraries, given a way to start a process and the program that runs the scripts. -/
def libraries (spawn : Command → m (Except FileError Output)) (tree : FileTree) (program : Text) :
    Libraries m where
  prettify text options workdir :=
    call spawn tree program Script.prettier (prettierRequest text options) .text workdir
  lintFix package text workdir :=
    call spawn tree program Script.lintFix (lintRequest package text) LintReport.decoder workdir

end Restyle.Child
