import Restyle.Proofs.Calls

/-!
# The Trace of the Pipeline

Which libraries are called for a text, with what, and what becomes of their answers.

The transcript of the pipeline lists its calls with their answers, and its result as a function of both.
Here the transcript is read the other way around, as an account of what may be relied on: which text the
fixer was given, when the pipeline fails and with which error, and which text it gives otherwise. A
report may hold several results, and of these only the first is looked at, so that an output in a later
one is never taken for the text that was asked about.

## Main definitions

* `GivenToFixer`: The calls before the fixer's, and the text that it is given.
* `TakenFromFixer`: The result of the pipeline after the fixer has answered.

## Theorems

* `fixedOutput_eq_some_iff`: The fixed text is the output of the first result.
* `transform_calls`: The calls of the pipeline and its result, for any style and any libraries.
-/

namespace Restyle

/-- The fixed text is the output of the first result, and of no other. -/
theorem LintReport.fixedOutput_eq_some_iff (report : LintReport) (output : Text) :
    report.fixedOutput = some output ↔ ∃ others, report.results = ⟨some output⟩ :: others := by
  rcases report with ⟨results⟩
  cases results with
  | nil => simp [fixedOutput]
  | cons first others =>
      rcases first with ⟨result⟩
      simp [fixedOutput]

/-- One style has semicolons. -/
theorem Style.semicolons_iff (style : Style) : style.semicolons = true ↔ style = .semiStandard := by
  cases style <;> simp [semicolons]

/-- The package of a style. -/
theorem Style.package?_eq_some_iff (style : Style) (package : Text) :
    style.package? = some package ↔ style ≠ .unstyled ∧
      package = if style = .semiStandard then "semistandard".toList else "standard".toList := by
  cases style <;> simp [package?, eq_comm]

namespace Pipeline

/-- The calls before the fixer's, and the text that it is given. The pre-formatter is called once if it
    is wanted, with the text and the options of the style, and its text is the one that goes on, if it
    has given one. The styles differ in one of the options. -/
structure GivenToFixer (text : Text) (style : Style) (usePrettier : Bool) (workdir : Option Path)
    (calls : List Call) (input : Text) : Prop where
  unwanted : usePrettier = false → calls = [] ∧ input = text
  wanted : usePrettier = true → ∃ semicolons answer, (semicolons = true ↔ style = .semiStandard) ∧
    calls = [.prettify text { parser := "babel".toList, semicolons, singleQuotes := true } workdir
      answer] ∧
    (∀ pretty, answer = .ok pretty → input = pretty) ∧
    ∀ cause, answer = .error cause → input = text

/-- The result of the pipeline after the fixer has answered. It fails if the fixer does, with the name of
    the package and the error of the fixer. Otherwise it is the output of the first result that was
    reported, or the text that the fixer was given, if there is no such output. -/
structure TakenFromFixer (package input : Text) (answer : Except AdapterError LintReport)
    (result : Except FixerFailure Text) : Prop where
  failed : ∀ failure, result = .error failure ↔
    ∃ cause, answer = .error cause ∧ failure = { package, cause }
  fixed : ∀ output others, answer = .ok ⟨⟨some output⟩ :: others⟩ → result = .ok output
  clean : ∀ results, answer = .ok ⟨results⟩ → (∀ output others, results ≠ ⟨some output⟩ :: others) →
    result = .ok input

theorem Preformatted.givenToFixer {text : Text} {style : Style} {workdir : Option Path}
    {usePrettier : Bool} {input : Text} {calls : List Call}
    (h : Preformatted text style workdir usePrettier input calls) :
    GivenToFixer text style usePrettier workdir calls input := by
  cases h with
  | unwanted => exact ⟨fun _ => ⟨rfl, rfl⟩, fun h => absurd h Bool.false_ne_true⟩
  | wanted answer =>
      refine ⟨fun h => absurd h.symm Bool.false_ne_true,
        fun _ => ⟨style.semicolons, answer, style.semicolons_iff, rfl, ?_, ?_⟩⟩
      · rintro pretty rfl
        rfl
      · rintro cause rfl
        rfl

theorem takenFromFixer_outcome (package input : Text) (answer : Except AdapterError LintReport) :
    TakenFromFixer package input answer (outcome package input answer) := by
  cases answer with
  | error cause =>
      refine ⟨fun failure => ?_, nofun, nofun⟩
      simp [outcome, eq_comm]
  | ok report =>
      refine ⟨fun failure => by simp [outcome], ?_, ?_⟩
      · intro output others hanswer
        rw [outcome, (report.fixedOutput_eq_some_iff output).mpr, Option.getD_some]
        exact ⟨others, congrArg LintReport.results (Except.ok.inj hanswer)⟩
      · intro results hanswer hnone
        obtain rfl := Except.ok.inj hanswer
        -- Without an output in the first result there is no fixed text.
        have hfixed : (⟨results⟩ : LintReport).fixedOutput = none := by
          refine Option.eq_none_iff_forall_ne_some.mpr fun output houtput => ?_
          rcases (LintReport.fixedOutput_eq_some_iff _ output).mp houtput with ⟨others, hresults⟩
          exact hnone output others hresults
        rw [outcome, hfixed, Option.getD_none]

variable {m : Type → Type} [Monad m] [LawfulMonad m]

/-- Without a style the text is the result, and no library is called. With one the pre-formatter is
    called first and once, or not at all, and then the fixer of the style is called once. Both get the
    same directory, and the result follows from what the fixer was given and from what it answers. -/
theorem transform_calls (l : Libraries m) (text : Text) (style : Style) (usePrettier : Bool)
    (workdir : Option Path) :
    Recorded (transform l.traced text style usePrettier workdir)
      (transform l text style usePrettier workdir) fun result calls =>
        (style = .unstyled → result = .ok text ∧ calls = []) ∧
        (style ≠ .unstyled → ∃ package before input answer,
          package = (if style = .semiStandard then "semistandard".toList else "standard".toList) ∧
          calls = before ++ [.lintFix package input workdir answer] ∧
          GivenToFixer text style usePrettier workdir before input ∧
          TakenFromFixer package input answer result) := by
  refine (recorded_transform l text style usePrettier workdir).mono fun result calls h => ?_
  cases h with
  | unstyled hstyle =>
      refine ⟨fun _ => ⟨rfl, rfl⟩, fun hne => ?_⟩
      rw [(style.package?_eq_some_iff _).mpr ⟨hne, rfl⟩] at hstyle
      exact nomatch hstyle
  | @fixed package input before answer hstyle hinput =>
      obtain ⟨hne, hpackage⟩ := (style.package?_eq_some_iff package).mp hstyle
      exact ⟨fun hunstyled => absurd hunstyled hne, fun _ => ⟨package, before, input, answer, hpackage,
        rfl, hinput.givenToFixer, takenFromFixer_outcome package input answer⟩⟩

/-- A pre-formatter that succeeds, and a fixer that reports an output only in its second result. -/
def lateOutput : Libraries (StateM Unit) where
  prettify _ _ _ := pure (.ok "b".toList)
  lintFix _ _ _ := pure (.ok ⟨[⟨none⟩, ⟨some "c".toList⟩]⟩)

theorem transform_calls_lateOutput :
    LawfulMonad (StateM Unit) ∧
      ∃ before input answer,
        ((transform lateOutput.traced "a".toList .semiStandard true none).run []).run () =
          ((.ok "b".toList, before ++ [.lintFix "semistandard".toList input none answer]), ()) ∧
        GivenToFixer "a".toList .semiStandard true none before input ∧
        before = [.prettify "a".toList
          { parser := "babel".toList, semicolons := true, singleQuotes := true } none
          (.ok "b".toList)] ∧
        TakenFromFixer "semistandard".toList input answer (.ok "b".toList) := by
  have hrecorded := (transform_calls lateOutput "a".toList .semiStandard true none).of_state ()
  rcases hrecorded.2 (by decide) with ⟨package, before, input, answer, hpackage, hcalls, hgiven, htaken⟩
  rw [if_pos rfl] at hpackage
  subst hpackage
  refine ⟨inferInstance, before, input, answer, ?_, hgiven, ?_, htaken⟩
  · rw [← hcalls]
    rfl
  · -- There are two calls, and the one before the last is the first.
    have hbefore := congrArg List.dropLast hcalls
    rw [List.dropLast_concat] at hbefore
    exact hbefore.symm

end Pipeline

end Restyle
