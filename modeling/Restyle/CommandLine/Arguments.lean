import Restyle.Path

/-!
# Arguments

What the arguments of the program ask for.

The first argument is the command. Behind it, an argument that starts with a dash and has more to it is
an option, a lone dash is a value, and after two dashes everything is. Arguments are looked at from left
to right, so the first request for help or the first mistake decides; only a value that is empty or
missing is found out later, when the next option is met or the arguments end.

## Main definitions

* `Command`: What the program can do.
* `Topic`: What there is help for.
* `Request`: What it is asked for, which may also be help or a mistake.
* `Request.ofArguments`: Reading the arguments.
-/

namespace Restyle.CommandLine

/-- What the program can do. -/
inductive Command where
  /-- Serve a running editor, at an address or wherever the environment says. -/
  | attach (address : Option Path)
  | fix (paths : List Path)
  | config
  deriving DecidableEq, Repr

/-- What there is help for: the whole program, or one of its commands. -/
inductive Topic where
  | program
  | attach
  | fix
  | config
  | help
  deriving DecidableEq, Repr

/-- The commands. -/
def Topic.commands : List Topic :=
  [.attach, .fix, .config, .help]

/-- The name of the program or of a command. -/
def Topic.name : Topic → Text
  | .program => "standard-formatter".toList
  | .attach => "attach".toList
  | .fix => "fix".toList
  | .config => "config".toList
  | .help => "help".toList

/-- The command with a name. -/
def Topic.ofName? (name : Text) : Option Topic :=
  commands.find? (·.name = name)

/-- What the program is asked for. -/
inductive Request where
  | run (c : Command)
  | help (t : Topic)
  | misuse
  deriving DecidableEq, Repr

namespace Request

/-- Whether an argument is an option. -/
def isOption (argument : Text) : Bool :=
  match argument with
  | '-' :: _ :: _ => true
  | _ => false

/-- Whether an option asks for help. A cluster of short options is read from its first. -/
def asksForHelp (argument : Text) : Bool :=
  argument == "--help".toList ||
    match argument with
    | '-' :: 'h' :: _ => true
    | _ => false

/-- The paths to fix, of which there has to be one, and none may be empty. -/
def fixPaths (paths : List Text) : Request :=
  if paths = [] ∨ [] ∈ paths then .misuse else .run (.fix (paths.map Path.mk))

/-- The arguments of `fix`, behind the paths read so far. -/
def ofFix (paths : List Text) : List Text → Request
  | [] => fixPaths paths
  | argument :: rest =>
    if argument = "--".toList then fixPaths (paths ++ rest)
    else if !isOption argument then ofFix (paths ++ [argument]) rest
    else if asksForHelp argument ∧ [] ∉ paths then .help .fix
    else .misuse

/-- The option with the address of an editor. -/
def addressOption : Text := "--socket".toList

/-- The arguments of `attach`, behind the address if it has been given. -/
def ofAttach (address : Option Text) : List Text → Request
  | [] => if address = some [] then .misuse else .run (.attach (address.map Path.mk))
  | [argument] =>
    if argument = "--".toList then ofAttach address []
    else if (addressOption ++ ['=']).isPrefixOf argument ∧ address = none then
      ofAttach (some (argument.drop (addressOption.length + 1))) []
    else if asksForHelp argument ∧ address ≠ some [] then .help .attach
    else .misuse
  | argument :: value :: rest =>
    if argument = addressOption then
      if address = none ∧ !isOption value then ofAttach (some value) rest else .misuse
    else if (addressOption ++ ['=']).isPrefixOf argument ∧ address = none then
      ofAttach (some (argument.drop (addressOption.length + 1))) (value :: rest)
    else if asksForHelp argument ∧ address ≠ some [] then .help .attach
    else .misuse
termination_by arguments => arguments.length

/-- The arguments of `config`, of which there are none. -/
def ofConfig : List Text → Request
  | [] => .run .config
  | argument :: rest =>
    if argument = "--".toList then if rest = [] then .run .config else .misuse
    else if asksForHelp argument then .help .config
    else .misuse

/-- The arguments of `help`, at most the name of one command. -/
def ofHelp : List Text → Request
  | [] => .help .program
  | [name] => ((Topic.ofName? name).map .help).getD .misuse
  | _ => .misuse

/-- What the arguments of the program ask for. -/
def ofArguments : List Text → Request
  | [] => .misuse
  | name :: rest =>
    match Topic.ofName? name with
    | some .attach => ofAttach none rest
    | some .fix => ofFix [] rest
    | some .config => ofConfig rest
    | some .help => ofHelp rest
    | _ => if asksForHelp name then .help .program else .misuse

end Request

end Restyle.CommandLine
