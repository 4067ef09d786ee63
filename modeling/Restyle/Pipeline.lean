import Restyle.Style
import Restyle.FileTree

/-!
# The Pipeline

A text through the pre-formatter and the fixer of its style.

Both are libraries that this one only knows by what they are asked and what they answer. They may fail
in different ways with different consequences. The pre-formatter is a convenience: if it fails, the
fixer gets the text as it was. The fixer decides: if it fails, so does the pipeline, and nothing that
was done on the way comes out of it. A fixer that answers without a text had nothing to fix, and the
text it was given is the result.

The libraries act in a monad of their own, so that the same pipeline runs against a process, against a
script of answers, and against a pure function in a proof.

## Main definitions

* `AdapterError`: How talking to a library fails.
* `LintReport`: What a fixer answers.
* `Libraries`: The pre-formatter and the fixers.
* `Pipeline.transform`: A text in the style of its document.
-/

namespace Restyle

/-- How talking to a library fails. -/
inductive AdapterError where
  /-- The process could not be started. -/
  | spawn (program : Text) (cause : FileError)
  /-- The request could not be passed on, or the reply not be fetched. -/
  | transfer (cause : FileError)
  /-- The process ended with a status other than zero. -/
  | exit (status : Nat) (stderr : Text)
  /-- The reply is not of the agreed form. -/
  | reply (fault : Json.Fault)
  /-- The library itself reports an error. -/
  | library (message : Text)
  deriving DecidableEq, Repr

/-- The error as a text. -/
def AdapterError.message : AdapterError → Text
  | .spawn program cause => "Failed to spawn ".toList ++ program ++ ": ".toList ++ cause.message
  | .transfer cause => "I/O error while talking to the formatter process: ".toList ++ cause.message
  | .exit status stderr =>
    "Formatter process exited with exit status: ".toList ++ (toString status).toList ++
      ": ".toList ++ stderr
  | .reply _ => "Malformed reply from formatter process".toList
  | .library message => message

/-- The failure of a fixer. -/
structure FixerFailure where
  package : Text
  cause : AdapterError
  deriving DecidableEq, Repr

/-- The failure as a text. -/
def FixerFailure.message (f : FixerFailure) : Text :=
  f.package ++ " failed: ".toList ++ f.cause.message

/-- What the pre-formatter is told about a style. -/
structure PrettierOptions where
  parser : Text
  semicolons : Bool
  singleQuotes : Bool
  deriving DecidableEq, Repr

namespace PrettierOptions

/-- The options for a style: current syntax, single quotes, and semicolons as the style has them. -/
def ofStyle (s : Style) : PrettierOptions :=
  { parser := "babel".toList, semicolons := s.semicolons, singleQuotes := true }

/-- The options as a value. -/
def toJson (o : PrettierOptions) : Json :=
  .object
    [("parser".toList, .string o.parser),
     ("semi".toList, .bool o.semicolons),
     ("singleQuote".toList, .bool o.singleQuotes)]

end PrettierOptions

/-- What a fixer answers for one file: its text, if there was something to fix. -/
structure LintResult where
  output : Option Text := none
  deriving DecidableEq, Repr

/-- What a fixer answers: a result for each file. -/
structure LintReport where
  results : List LintResult := []
  deriving DecidableEq, Repr

namespace LintReport

/-- The fixed text of the first file, which is the only one it was asked for. -/
def fixedOutput (r : LintReport) : Option Text :=
  r.results.head?.bind (·.output)

open Json (Decoder)

/-- A result in a reply. -/
def resultDecoder : Decoder LintResult :=
  Decoder.record
    [{ name := "output".toList
       set := fun o => (fun v r => { r with output := v }) <$> Decoder.optional .text o
       omissible := true }]
    {}

/-- A report in a reply. -/
def decoder : Decoder LintReport :=
  Decoder.record
    [{ name := "results".toList
       set := fun o => (fun v r => { r with results := v }) <$> Decoder.list resultDecoder o
       omissible := true }]
    {}

end LintReport

/-- The libraries that do the formatting: the pre-formatter and, by the name of its package, each
    fixer. They are given the directory of the document, if it has one. -/
structure Libraries (m : Type → Type) where
  prettify : Text → PrettierOptions → Option Path → m (Except AdapterError Text)
  lintFix : Text → Text → Option Path → m (Except AdapterError LintReport)

/-- The libraries in a monad that has more effects. -/
def Libraries.lift {m n : Type → Type} [MonadLiftT m n] (l : Libraries m) : Libraries n where
  prettify text options workdir := l.prettify text options workdir
  lintFix package text workdir := l.lintFix package text workdir

namespace Pipeline

variable {m : Type → Type} [Monad m]

/-- What the fixer is given: the pre-formatted text, or the text itself if the pre-formatter is not
    wanted or fails. -/
def preformat (l : Libraries m) (text : Text) (style : Style) (usePrettier : Bool)
    (workdir : Option Path) : m Text :=
  if usePrettier then do
    match ← l.prettify text (.ofStyle style) workdir with
    | .ok pretty => pure pretty
    | .error _ => pure text
  else pure text

/-- A text in the style of its document. -/
def transform (l : Libraries m) (text : Text) (style : Style) (usePrettier : Bool)
    (workdir : Option Path) : m (Except FixerFailure Text) :=
  match style.package? with
  | none => pure (.ok text)
  | some package => do
    let input ← preformat l text style usePrettier workdir
    match ← l.lintFix package input workdir with
    | .ok report => pure (.ok (report.fixedOutput.getD input))
    | .error cause => pure (.error { package, cause })

end Pipeline

end Restyle
