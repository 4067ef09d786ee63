import Restyle.Child
import Restyle.CommandLine.Arguments
import Restyle.CommandLine.Fix
import Restyle.CommandLine.Help
import Restyle.CommandLine.Notice
import Restyle.Neovim.Host

/-!
# Running the Program

From arguments, environment and files to an exit status and an output.

The settings file is settled before anything else is done, and the program that runs the libraries is
taken from it once. An editor to attach to is the one whose address is given, or else the one that the
environment names, or else the parent process. What lies outside, starting a process, connecting to an
editor and telling the user, is left to the caller.

## Main definitions

* `World`: What lies outside.
* `Target`: Where to find an editor.
* `Outcome`: How a run ends.
* `run`: Running the program.
-/

namespace Restyle.CommandLine

/-- Where to find an editor. -/
inductive Target where
  | address (p : Path)
  | parent
  deriving DecidableEq, Repr

/-- What lies outside the program: starting a process, connecting to an editor, which gives a way to
    ask it and the notifications it is going to send, and telling the user. -/
structure World (m : Type → Type) where
  spawn : Child.Command → m (Except FileError Child.Output)
  connect : Target → m (Except FileError (Neovim.Rpc m × List Neovim.Notification))
  notify : Notice → m Unit

/-- How a run ends: its exit status, what it has written, the files as they are then, and the failure
    it is told to the user for. -/
structure Outcome where
  status : Nat
  output : Text := []
  tree : FileTree
  failure : Option Failure := none

/-- The end of a run with a failure or without. -/
def Outcome.ofResult (tree : FileTree) (output : Text) (failure : Option Failure) : Outcome :=
  { status := if failure.isSome then 1 else 0, output, tree, failure }

/-- The editor to attach to. -/
def target (e : Environment) (address : Option Path) : Target :=
  match address.or (e.editorAddress.map Path.mk) with
  | some p => .address p
  | none => .parent

/-- The settings as the program prints them, under a line with the path of their file. -/
def configListing (path : Path) (s : Settings) : Text :=
  '#' :: ' ' :: path.text ++ '\n' :: s.document ++ ['\n']

variable {m : Type → Type} [Monad m]

/-- The settings, or the defaults in place of ones that cannot be read, which is told. -/
def settle (w : World m) (tree : FileTree) (source : Settings.Source) : m Settings := do
  match source.load tree with
  | .ok settings => pure settings
  | .error cause =>
    w.notify (.settings cause)
    pure {}

/-- Connect to an editor and serve it. -/
def attach (w : World m) (f : Formatter m) (t : Target) : ExceptT Failure m Unit := ExceptT.mk do
  match ← w.connect t with
  | .error cause => pure (.error (.connect cause))
  | .ok (rpc, notifications) => (Neovim.Host.run rpc f notifications).run

/-- The libraries of a run, once it is known which program runs them. -/
def libraries (w : World m) (program : Text) (tree : FileTree) : Libraries m :=
  (Child.libraries w.spawn tree program).notifying w.notify

/-- Run a command. -/
def perform (w : World m) (e : Environment) (tree : FileTree) (c : Command) : m Outcome :=
  match Settings.defaultPath e with
  | .error failure => pure (.ofResult tree [] (some failure))
  | .ok path =>
    let source := Settings.Source.file path
    match c with
    | .config =>
      match source.load tree with
      | .ok settings => pure (.ofResult tree (configListing path settings) none)
      | .error failure => pure (.ofResult tree [] (some failure))
    | .attach address => do
      let program := (← settle w tree source).nodePath
      let f : Formatter m := { tree, source, libraries := libraries w program tree }
      match ← (attach w f (target e address)).run with
      | .ok () => pure (.ofResult tree [] none)
      | .error failure => pure (.ofResult tree [] (some failure))
    | .fix paths => do
      let program := (← settle w tree source).nodePath
      let outcome ← Fix.files source (libraries w program) tree paths
      pure (.ofResult outcome.tree (outcome.reports.flatMap Fix.Report.line) outcome.failure)

/-- Run the program. -/
def run (w : World m) (e : Environment) (tree : FileTree) (arguments : List Text) : m Outcome :=
  match Request.ofArguments arguments with
  | .run c => perform w e tree c
  | .help topic => pure { status := 0, output := topic.page.text, tree }
  | .misuse => pure { status := 2, tree }

end Restyle.CommandLine
