import Restyle.Formatter
import Restyle.Proofs.Recording

/-!
# Calls of a Formatter

What a formatter asks of the editor and of the libraries, and what it is answered.

Two kinds of others are called. The editor is read, written to, and told where its cursor goes; the
libraries turn one text into another. A call holds its answer, so a list of calls tells what was known
at each point, and the properties of runs are stated in terms of such lists alone: which readings were
refused, which cursor and which text was read, where.

The pipeline is the part of a run that calls the libraries. Its calls are few and follow from the
style, so they are described exactly, by `Preformatted` and `Transcript`, together with what comes of
them.

## Main definitions

* `Call`: A call with its answer.
* `Editor.traced`, `Libraries.traced`, `Formatter.traced`: The same with all calls recorded.
* `Call.isReading`, `Call.refusal?`: The calls that read the document, and how they fail.
* `Readings`: Calls that read the document and are answered.
* `Pipeline.Transcript`: The calls of the pipeline, and what comes of them.

## Theorems

* `Pipeline.recorded_transform`: The calls of the pipeline follow from the style.
-/

namespace Restyle

/-- A call of an editor or of a library, with its answer. The text of a document is read and written
    at a place, which is a range, or none for all of it. -/
inductive Call where
  | path (answer : Option Path)
  | isModified (answer : Except Failure Bool)
  | scope (answer : Except Failure (Option Text))
  | cursor (answer : Except Failure Point)
  | selection (answer : Except Failure (Option Range))
  | text (place : Option Range) (answer : Except Failure Text)
  | write (place : Option Range) (text : Text) (answer : Except Failure Unit)
  | moveCursor (point : Point) (answer : Except Failure Unit)
  | prettify (text : Text) (options : PrettierOptions) (workdir : Option Path)
    (answer : Except AdapterError Text)
  | lintFix (package text : Text) (workdir : Option Path)
    (answer : Except AdapterError LintReport)

namespace Call

/-- A call that reads the document. -/
def isReading : Call → Bool
  | path _ | isModified _ | scope _ | cursor _ | selection _ | text _ _ => true
  | write _ _ _ | moveCursor _ _ | prettify _ _ _ _ | lintFix _ _ _ _ => false

/-- A call that changes the text. -/
def isWrite : Call → Bool
  | write _ _ _ => true
  | _ => false

/-- The failure in an answer. -/
def failure? {α : Type} : Except Failure α → Option Failure
  | .ok _ => none
  | .error failure => some failure

/-- The failure that a reading is answered with. -/
def refusal? : Call → Option Failure
  | isModified answer => failure? answer
  | scope answer => failure? answer
  | cursor answer => failure? answer
  | selection answer => failure? answer
  | text _ answer => failure? answer
  | _ => none

/-- The path that is read. -/
def path? : Call → Option (Option Path)
  | path answer => some answer
  | _ => none

/-- The cursor that is read. -/
def cursor? : Call → Option Point
  | cursor answer => answer.toOption
  | _ => none

/-- The text that is read, with its place. -/
def text? : Call → Option (Option Range × Text)
  | text place answer => answer.toOption.map fun t => (place, t)
  | _ => none

end Call

/-- Calls that read the document, all of them answered. -/
def Readings (calls : List Call) : Prop :=
  ∀ c ∈ calls, c.isReading ∧ c.refusal? = none

theorem Readings.nil : Readings [] :=
  fun _ h => absurd h List.not_mem_nil

theorem Readings.append {a b : List Call} (ha : Readings a) (hb : Readings b) :
    Readings (a ++ b) := by
  intro c hc
  rcases List.mem_append.mp hc with h | h
  · exact ha c h
  · exact hb c h

theorem Readings.single {c : Call} (hreading : c.isReading) (hrefusal : c.refusal? = none) :
    Readings [c] := by
  intro d hd
  rw [List.mem_singleton.mp hd]
  exact ⟨hreading, hrefusal⟩

/-- Readings that are answered, and then one that is refused. -/
inductive Refused (failure : Failure) : List Call → Prop where
  | intro {readings : List Call} {last : Call} (hreadings : Readings readings)
      (hreading : last.isReading) (hrefusal : last.refusal? = some failure) :
      Refused failure (readings ++ [last])

/-- What was answered before does not change what was refused. -/
theorem Refused.append {failure : Failure} {a b : List Call} (ha : Readings a)
    (hb : Refused failure b) : Refused failure (a ++ b) := by
  cases hb with
  | intro hreadings hreading hrefusal =>
      rw [← List.append_assoc]
      exact .intro (ha.append hreadings) hreading hrefusal

theorem Refused.isReading {failure : Failure} {calls : List Call} (h : Refused failure calls) :
    ∀ c ∈ calls, c.isReading := by
  cases h with
  | intro hreadings hreading _ =>
      intro c hc
      rcases List.mem_append.mp hc with hbefore | hlast
      · exact (hreadings c hbefore).1
      · rwa [List.mem_singleton.mp hlast]

theorem Call.isWrite_of_isReading {c : Call} (h : c.isReading) : c.isWrite = false := by
  cases c with
  | write _ _ _ => exact absurd h Bool.false_ne_true
  | _ => rfl

variable {m : Type → Type} [Monad m]

/-- An editor of which all calls are recorded. -/
def Editor.traced (e : Editor m) : Editor (StateT (List Call) m) where
  path := record e.path .path
  isModified := record e.isModified.run .isModified
  scope := record e.scope.run .scope
  text := record e.text.run (.text none)
  selection := record e.selection.run .selection
  textInRange r := record (e.textInRange r).run (.text (some r))
  setText t := record (e.setText t).run (.write none t)
  setTextInRange r t := record (e.setTextInRange r t).run (.write (some r) t)
  cursor := record e.cursor.run .cursor
  setCursor p := record (e.setCursor p).run (.moveCursor p)

/-- Libraries of which all calls are recorded. -/
def Libraries.traced (l : Libraries m) : Libraries (StateT (List Call) m) where
  prettify text options workdir :=
    record (l.prettify text options workdir) (.prettify text options workdir)
  lintFix package text workdir :=
    record (l.lintFix package text workdir) (.lintFix package text workdir)

/-- A formatter of which all calls of the libraries are recorded. -/
def Formatter.traced (f : Formatter m) : Formatter (StateT (List Call) m) :=
  { f with libraries := f.libraries.traced }

namespace Pipeline

/-- The calls that decide what the fixer is given, and the text that it is given. -/
inductive Preformatted (source : Text) (style : Style) (workdir : Option Path) :
    Bool → Text → List Call → Prop where
  | unwanted : Preformatted source style workdir false source []
  | wanted (answer : Except AdapterError Text) :
      Preformatted source style workdir true (answer.toOption.getD source)
        [.prettify source (.ofStyle style) workdir answer]

/-- What comes of the fixer's answer to a text. -/
def outcome (package input : Text) : Except AdapterError LintReport → Except FixerFailure Text
  | .ok report => .ok (report.fixedOutput.getD input)
  | .error cause => .error { package, cause }

/-- The calls of the pipeline, and what comes of them. There are none if the style asks for none, and
    else the fixer is called once, with nothing before it but a call of the pre-formatter. -/
inductive Transcript (source : Text) (style : Style) (usePrettier : Bool)
    (workdir : Option Path) : Except FixerFailure Text → List Call → Prop where
  | unstyled (hstyle : style.package? = none) :
      Transcript source style usePrettier workdir (.ok source) []
  | fixed {package input : Text} {calls : List Call} (answer : Except AdapterError LintReport)
      (hstyle : style.package? = some package)
      (hinput : Preformatted source style workdir usePrettier input calls) :
      Transcript source style usePrettier workdir (outcome package input answer)
        (calls ++ [.lintFix package input workdir answer])

/-- The pipeline does not change the document. -/
theorem Transcript.isWrite {source : Text} {style : Style} {usePrettier : Bool}
    {workdir : Option Path} {outcome : Except FixerFailure Text} {calls : List Call}
    (h : Transcript source style usePrettier workdir outcome calls) :
    ∀ c ∈ calls, c.isWrite = false := by
  cases h with
  | unstyled _ => exact fun c hc => absurd hc List.not_mem_nil
  | fixed answer _ hinput =>
      intro c hc
      rcases List.mem_append.mp hc with hbefore | hlast
      · cases hinput with
        | unwanted => exact absurd hbefore List.not_mem_nil
        | wanted answer =>
            rw [List.mem_singleton.mp hbefore]
            rfl
      · rw [List.mem_singleton.mp hlast]
        rfl

/-- If the fixer fails, so does the pipeline. -/
theorem Transcript.outcome_of_error {source : Text} {style : Style} {usePrettier : Bool}
    {workdir directory : Option Path} {outcome : Except FixerFailure Text} {calls : List Call}
    {package text : Text} {cause : AdapterError}
    (h : Transcript source style usePrettier workdir outcome calls)
    (hfixer : .lintFix package text directory (.error cause) ∈ calls) :
    outcome = .error { package, cause } := by
  cases h with
  | unstyled _ => exact absurd hfixer List.not_mem_nil
  | fixed answer _ hinput =>
      rcases List.mem_append.mp hfixer with hbefore | hlast
      · -- Before the fixer there is at most a call of the pre-formatter.
        cases hinput with
        | unwanted => exact absurd hbefore List.not_mem_nil
        | wanted answer => exact nomatch List.mem_singleton.mp hbefore
      · cases List.mem_singleton.mp hlast
        rfl

variable [LawfulMonad m]

theorem recorded_preformat (l : Libraries m) (source : Text) (style : Style) (usePrettier : Bool)
    (workdir : Option Path) :
    Recorded (preformat l.traced source style usePrettier workdir)
      (preformat l source style usePrettier workdir)
      (Preformatted source style workdir usePrettier) := by
  unfold preformat
  cases usePrettier with
  | false =>
      simp only [Bool.false_eq_true, if_false]
      exact recorded_pure .unwanted
  | true =>
      simp only [if_true]
      refine (recorded_record _ _).bind ?_
      rintro answer _ rfl
      -- A failure leaves the text as it was, and so does the default for an answer without one.
      cases answer with
      | ok pretty => exact recorded_pure (.wanted (.ok pretty))
      | error cause => exact recorded_pure (.wanted (.error cause))

/-- The calls of the pipeline follow from the style, and its result from their answers. -/
theorem recorded_transform (l : Libraries m) (source : Text) (style : Style) (usePrettier : Bool)
    (workdir : Option Path) :
    Recorded (transform l.traced source style usePrettier workdir)
      (transform l source style usePrettier workdir)
      (Transcript source style usePrettier workdir) := by
  unfold transform
  cases hstyle : style.package? with
  | none => exact recorded_pure (.unstyled hstyle)
  | some package =>
      refine (recorded_preformat l source style usePrettier workdir).bind ?_
      intro input calls hinput
      refine (recorded_record _ _).bind ?_
      rintro answer _ rfl
      -- Nothing is called after the fixer has answered.
      have hfixed := Transcript.fixed answer hstyle hinput
      rw [← List.append_nil [_]] at hfixed
      cases answer with
      | ok report => exact recorded_pure hfixed
      | error cause => exact recorded_pure hfixed

end Pipeline

end Restyle
