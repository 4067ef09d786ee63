import Restyle.CommandLine.Arguments

/-!
# Help

What the program prints when it is asked for help.

Every help text is built the same way from a page: a sentence that says what the thing is for, a line
with how it is called, and sections of commands, arguments and options. The names of a section are
filled up to the longest. An option without a short form is set off as far as one that has it, so that
the long forms stand below each other.

## Main definitions

* `Page`: What there is to say about a command, or about the whole program.
* `Page.text`: A page as it is printed.
* `Topic.page`: The page of a topic.
-/

namespace Restyle.CommandLine

/-- A part of a page: a heading, and names with what they mean. -/
structure Section where
  heading : Text
  entries : List (Text × Text)

/-- What there is to say about a command, or about the whole program. -/
structure Page where
  purpose : Text
  /-- What is written behind the name of the program. -/
  synopsis : Text
  sections : List Section

namespace Section

/-- The width of the longest name. -/
def width (s : Section) : Nat :=
  (s.entries.map (·.1.length)).foldl max 0

/-- An entry as a line, its name filled up to a width. -/
def line (width : Nat) (entry : Text × Text) : Text :=
  ' ' :: ' ' :: entry.1.rightpad width ' ' ++ ' ' :: ' ' :: entry.2 ++ ['\n']

/-- A section as it is printed, set off from what is before it. -/
def text (s : Section) : Text :=
  '\n' :: s.heading ++ ':' :: '\n' :: s.entries.flatMap (line s.width)

end Section

/-- A page as it is printed. -/
def Page.text (p : Page) : Text :=
  p.purpose ++ "\n\nUsage: ".toList ++ Topic.program.name ++ ' ' :: p.synopsis ++
    '\n' :: p.sections.flatMap Section.text

namespace Topic

/-- What the program or a command is for. -/
def purpose : Topic → Text
  | .program => "Format JavaScript with standard/semistandard from Neovim".toList
  | .attach => "Attach to a running Neovim and serve the save hooks and command".toList
  | .fix => "Format files on disk".toList
  | .config => "Print the effective configuration".toList
  | .help => "Print this message or the help of the given subcommand(s)".toList

/-- The commands with what they are for. -/
def commandSection : Section :=
  ⟨"Commands".toList, commands.map fun c => (c.name, c.purpose)⟩

/-- The one argument of a command. -/
def argumentSection (name meaning : String) : Section :=
  ⟨"Arguments".toList, [(name.toList, meaning.toList)]⟩

/-- Some options, and the one that asks for help. -/
def optionSection (options : List (Text × Text)) : Section :=
  ⟨"Options".toList, options ++ [("-h, --help".toList, "Print help".toList)]⟩

/-- The option with the address of an editor. -/
def addressEntry : Text × Text :=
  ("    ".toList ++ Request.addressOption ++ " <SOCKET>".toList,
    "Neovim server address; defaults to $NVIM, then the parent's stdio".toList)

/-- What is written behind the name of the program. -/
def synopsis : Topic → Text
  | .program => "<COMMAND>".toList
  | .attach => "attach [OPTIONS]".toList
  | .fix => "fix <PATHS>...".toList
  | .config => "config".toList
  | .help => "help [COMMAND]...".toList

/-- The sections of the page of a topic. -/
def sections : Topic → List Section
  | .program => [commandSection, optionSection []]
  | .attach => [optionSection [addressEntry]]
  | .fix => [argumentSection "<PATHS>..." "Files to format", optionSection []]
  | .config => [optionSection []]
  | .help => [argumentSection "[COMMAND]..." "Print help for the subcommand(s)"]

/-- The page of a topic. -/
def page (t : Topic) : Page :=
  { purpose := t.purpose, synopsis := t.synopsis, sections := t.sections }

end Topic

end Restyle.CommandLine
