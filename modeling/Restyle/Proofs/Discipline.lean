import Restyle.Neovim.Document
import Restyle.Neovim.Peer
import Restyle.Proofs.Calls

/-!
# The Discipline of a Run

In which order a run reads, transforms, writes and restores.

A run touches a document that someone is working on, and any of its calls may fail. What it may leave
behind then is a matter of order. Everything is read before anything is asked of a library, and
everything is asked of the libraries before anything is written. If a reading is refused, that is the
last call. If not, the text is written at most once, namely when the pipeline gave a text that differs
from what was read, and whatever became of that, the last call puts the cursor back where it was read.

This is a property of the list of all calls, and it is shown for any editor and any libraries in any
monad, so for a buffer in memory, for a document in a running editor that refuses requests at will, and
for libraries that fail. Each part of a run has its own property of its calls, and the lists are put
together in the order of the parts.

## Main definitions

* `Captured`: The calls by which a run reads a document.
* `Written`: The calls by which it writes the result.
* `Disciplined`: The calls of a run, and what it reports.
* `BeforeSave`: The calls of the moment before a save, and what is reported.

## Theorems

* `recorded_capture`, `recorded_apply`, `recorded_run`: The parts of a run, and the run.
* `Disciplined.not_isWrite_of_fixer_error`: A fixer that fails keeps the document from being written.
* `disciplined_run`: All runs read, transform, write and restore in this order.
-/

namespace Restyle

variable {m : Type → Type} [Monad m]

/-- The calls by which a run reads a document. The text that it reads last is the source, and the
    cursors that it reads are the given ones. -/
inductive Captured (cursors : List Point) (cursor : Point) :
    Except Failure FormatRequest → List Call → Prop where
  | refused {failure : Failure} {calls : List Call} (h : Refused failure calls) :
      Captured cursors cursor (.error failure) calls
  | read {place : Option Range} {source : Text} {calls : List Call} (hreadings : Readings calls)
      (hcursors : calls.filterMap Call.cursor? = cursors)
      (hsource : (calls.filterMap Call.text?).getLast? = some (place, source)) :
      Captured cursors cursor (.ok ⟨source, place, cursor⟩) calls

/-- What was read before counts among the cursors, but not as the source. -/
theorem Captured.append {cursors : List Point} {cursor : Point}
    {result : Except Failure FormatRequest} {before calls : List Call} (hbefore : Readings before)
    (h : Captured cursors cursor result calls) :
    Captured (before.filterMap Call.cursor? ++ cursors) cursor result (before ++ calls) := by
  cases h with
  | refused h => exact .refused (h.append hbefore)
  | read hreadings hcursors hsource =>
      refine .read (hbefore.append hreadings) ?_ ?_
      · rw [List.filterMap_append, hcursors]
      · rw [List.filterMap_append, List.getLast?_append, hsource, Option.some_or]

/-- The calls by which a run writes the result of the pipeline, and what it reports. There is one if
    the pipeline gave a text that differs from the source, and none otherwise. -/
inductive Written (place : Option Range) (source : Text) (outcome : Except FixerFailure Text) :
    Except Failure Unit → List Call → Prop where
  | unchanged (h : ∀ t, outcome = .ok t → t = source) : Written place source outcome (.ok ()) []
  | changed {t : Text} (h : outcome = .ok t) (hne : t ≠ source) (answer : Except Failure Unit) :
      Written place source outcome answer [.write place t answer]

theorem Written.isWrite {place : Option Range} {source : Text}
    {outcome : Except FixerFailure Text} {result : Except Failure Unit} {calls : List Call}
    (h : Written place source outcome result calls) : ∀ c ∈ calls, c.isWrite := by
  intro c hc
  cases h with
  | unchanged _ => exact absurd hc List.not_mem_nil
  | changed _ _ answer =>
      rw [List.mem_singleton.mp hc]
      rfl

/-- Nothing is written if the pipeline fails. -/
theorem Written.eq_nil_of_error {place : Option Range} {source : Text} {failure : FixerFailure}
    {result : Except Failure Unit} {calls : List Call}
    (h : Written place source (.error failure) result calls) : calls = [] := by
  cases h with
  | unchanged _ => rfl
  | changed hok _ _ => cases hok

/-- The calls of a run, and what it reports. It is given up with the first reading that is refused.
    Otherwise it reads, then transforms what it has read last, then writes, and at last moves the
    cursor to where it was, and what it reports is what became of the writing. -/
inductive Disciplined (settings : Settings) (style : Style) :
    Except Failure Unit → List Call → Prop where
  | abandoned {failure : Failure} {calls : List Call} (h : Refused failure calls) :
      Disciplined settings style (.error failure) calls
  | completed {reads adapters writes : List Call} {cursor : Point} {place : Option Range}
      {source : Text} {path : Option Path} {outcome : Except FixerFailure Text}
      {result : Except Failure Unit} (moved : Except Failure Unit) (hreadings : Readings reads)
      (hcursor : reads.filterMap Call.cursor? = [cursor])
      (hsource : (reads.filterMap Call.text?).getLast? = some (place, source))
      (hadapters : Pipeline.Transcript source style settings.usePrettier (path.bind Path.parent?)
        outcome adapters)
      (hwrites : Written place source outcome result writes) :
      Disciplined settings style result
        (reads ++ [.path path] ++ adapters ++ writes ++ [.moveCursor cursor moved])

/-- A fixer that fails keeps the document from being written, whatever the pre-formatter made of the
    text. -/
theorem Disciplined.not_isWrite_of_fixer_error {settings : Settings} {style : Style}
    {result : Except Failure Unit} {calls : List Call} (h : Disciplined settings style result calls)
    {package text : Text} {workdir : Option Path} {cause : AdapterError}
    (hfixer : .lintFix package text workdir (.error cause) ∈ calls) :
    ∀ c ∈ calls, c.isWrite = false := by
  cases h with
  | abandoned h => exact fun c hc => Call.isWrite_of_isReading (h.isReading c hc)
  | completed moved hreadings hcursor hsource hadapters hwrites =>
      simp only [List.mem_append, List.mem_singleton] at hfixer
      -- Of all the calls only those of the pipeline can be one of the fixer.
      rcases hfixer with (((hread | hpath) | hadapter) | hwrite) | hmoved
      · exact absurd (hreadings _ hread).1 Bool.false_ne_true
      · cases hpath
      · -- The pipeline has failed, so there is no writing among the calls.
        rw [hadapters.outcome_of_error hadapter] at hwrites
        intro c hc
        simp only [hwrites.eq_nil_of_error, List.append_nil, List.mem_append,
          List.mem_singleton] at hc
        rcases hc with ((hread | hpath) | hadapter) | hmoved
        · exact Call.isWrite_of_isReading (hreadings c hread).1
        · rw [hpath]
          rfl
        · exact hadapters.isWrite c hadapter
        · rw [hmoved]
          rfl
      · exact absurd (hwrites.isWrite _ hwrite) Bool.false_ne_true
      · cases hmoved

/-- The calls of the moment before a save, and what is reported: readings that are answered and
    nothing else where the document is left alone, and else those of a run in the style of its file. -/
inductive BeforeSave (f : Formatter m) : Except Failure SaveOutcome → List Call → Prop where
  | skipped (reason : SkipReason) {calls : List Call} (h : Readings calls) :
      BeforeSave f (.ok (.skipped reason)) calls
  | refused {failure : Failure} {calls : List Call} (h : Refused failure calls) :
      BeforeSave f (.error failure) calls
  | ran {path : Path} {before calls : List Call} {result : Except Failure Unit}
      (hbefore : Readings before) (hpath : before.filterMap Call.path? = [some path])
      (h : Disciplined f.settings (Style.resolve f.tree f.settings path) result calls) :
      BeforeSave f (result.map fun _ => .formatted) (before ++ calls)

variable [LawfulMonad m]

/-- A reading that may be refused is the only call of itself. -/
theorem recorded_reading {α : Type} (x : ExceptT Failure m α) {call : Except Failure α → Call}
    (hreading : ∀ answer, (call answer).isReading)
    (hrefusal : ∀ answer, (call answer).refusal? = Call.failure? answer) :
    Recorded (record x.run call) x.run fun answer calls =>
      calls = [call answer] ∧ ∀ failure, answer = .error failure → Refused failure calls := by
  refine (recorded_record x.run call).mono ?_
  rintro answer _ rfl
  refine ⟨rfl, ?_⟩
  rintro failure rfl
  exact Refused.intro Readings.nil (hreading _) (hrefusal _)

theorem recorded_captureAll (e : Editor m) (cursor : Point) :
    Recorded (Formatter.captureAll e.traced cursor).run (Formatter.captureAll e cursor).run
      (Captured [] cursor) := by
  unfold Formatter.captureAll
  refine (recorded_reading e.text (fun _ => rfl) fun _ => rfl).bindExcept
    (fun failure calls h => .refused (h.2 failure rfl)) ?_
  rintro source _ ⟨rfl, -⟩
  exact recorded_pure (.read (.single rfl rfl) rfl rfl)

/-- What is read of a selection, or of the whole document if there is no text in it. -/
theorem recorded_captureSelected (e : Editor m) (cursor : Point) (selection : Option Range) :
    Recorded (Formatter.captureSelected e.traced cursor selection).run
      (Formatter.captureSelected e cursor selection).run (Captured [] cursor) := by
  unfold Formatter.captureSelected
  cases selection.filter (!·.isEmpty) with
  | none => exact recorded_captureAll e cursor
  | some range =>
      refine (recorded_reading (e.textInRange range) (fun _ => rfl) fun _ => rfl).bindExcept
        (fun failure calls h => .refused (h.2 failure rfl)) ?_
      rintro source _ ⟨rfl, -⟩
      by_cases hnil : source = []
      · -- The whole text is read last, so it is the source.
        rw [if_pos hnil, if_pos hnil]
        refine (recorded_captureAll e cursor).mono fun _ _ h => ?_
        exact h.append (Readings.single (c := .text (some range) (.ok source)) rfl rfl)
      · rw [if_neg hnil, if_neg hnil]
        exact recorded_pure (.read (.single rfl rfl) rfl rfl)

theorem recorded_selected (e : Editor m) (selectionOnly : Bool) :
    Recorded (Formatter.selected e.traced selectionOnly).run
      (Formatter.selected e selectionOnly).run fun answer calls =>
        (∀ failure, answer = .error failure → Refused failure calls) ∧
        (answer.isOk → Readings calls ∧ calls.filterMap Call.cursor? = []) := by
  cases selectionOnly with
  | false =>
      refine recorded_pure ⟨?_, fun _ => ⟨Readings.nil, rfl⟩⟩
      rintro failure h
      cases h
  | true =>
      refine (recorded_reading e.selection (fun _ => rfl) fun _ => rfl).mono ?_
      rintro answer _ ⟨rfl, hrefused⟩
      refine ⟨hrefused, fun hok => ?_⟩
      cases answer with
      | error failure => exact absurd hok Bool.false_ne_true
      | ok selection => exact ⟨.single rfl rfl, rfl⟩

/-- The first reading is the only one of the cursor. -/
theorem recorded_capture (e : Editor m) (selectionOnly : Bool) :
    Recorded (Formatter.capture e.traced selectionOnly).run
      (Formatter.capture e selectionOnly).run fun result calls =>
        ∃ cursor, Captured [cursor] cursor result calls := by
  unfold Formatter.capture
  refine (recorded_reading e.cursor (fun _ => rfl) fun _ => rfl).bindExcept
    (fun failure calls h => ⟨{}, .refused (h.2 failure rfl)⟩) ?_
  rintro cursor _ ⟨rfl, -⟩
  have hfirst := Readings.single (c := .cursor (.ok cursor)) rfl rfl
  refine (recorded_selected e selectionOnly).bindExcept
    (fun failure calls h => ⟨cursor, .refused ((h.1 failure rfl).append hfirst)⟩) ?_
  intro selection calls h
  rcases h.2 rfl with ⟨hreadings, hcursors⟩
  refine (recorded_captureSelected e cursor selection).mono fun result rest hrest => ⟨cursor, ?_⟩
  have hafter := hrest.append hreadings
  rw [hcursors] at hafter
  exact hafter.append hfirst

/-- A result is written where the source was read, if it differs from the source. -/
theorem recorded_apply (e : Editor m) (source : Text) (place : Option Range) (cursor : Point)
    (outcome : Except FixerFailure Text) :
    Recorded (Formatter.apply e.traced ⟨source, place, cursor⟩ (outcome.toOption.getD source)).run
      (Formatter.apply e ⟨source, place, cursor⟩ (outcome.toOption.getD source)).run
      (Written place source outcome) := by
  unfold Formatter.apply
  by_cases hsame : outcome.toOption.getD source = source
  · -- A pipeline that fails comes out here too, with the source for its result.
    rw [if_pos hsame, if_pos hsame]
    refine recorded_pure (.unchanged ?_)
    rintro t rfl
    exact hsame
  · rw [if_neg hsame, if_neg hsame]
    cases outcome with
    | error cause => exact absurd rfl hsame
    | ok t =>
        have hwritten : ∀ answer, Written place source (.ok t) answer [.write place t answer] :=
          fun answer => .changed rfl hsame answer
        cases place with
        | some range =>
            refine (recorded_record (e.setTextInRange range t).run _).mono ?_
            rintro answer _ rfl
            exact hwritten answer
        | none =>
            refine (recorded_record (e.setText t).run _).mono ?_
            rintro answer _ rfl
            exact hwritten answer

/-- A run reads, transforms, writes and restores in this order. -/
theorem recorded_run (f : Formatter m) (e : Editor m) (settings : Settings) (style : Style)
    (selectionOnly : Bool) :
    Recorded (f.traced.run e.traced settings style selectionOnly).run
      (f.run e settings style selectionOnly).run (Disciplined settings style) := by
  unfold Formatter.run
  rw [ExceptT.run_mk, ExceptT.run_mk]
  refine (recorded_capture e selectionOnly).bind ?_
  rintro result reads ⟨cursor, hcaptured⟩
  cases hcaptured with
  | refused h =>
      refine recorded_pure ?_
      rw [List.append_nil]
      exact .abandoned h
  | read hreadings hcursor hsource =>
      -- Whatever is answered from here on, the next part follows.
      refine (recorded_record e.path _).bind ?_
      rintro path _ rfl
      refine (Pipeline.recorded_transform f.libraries _ style _ _).bind ?_
      intro outcome adapters hadapters
      refine (recorded_apply e _ _ _ outcome).bind ?_
      intro applied writes hwrites
      refine (recorded_record (e.setCursor cursor).run _).bind ?_
      rintro moved _ rfl
      refine recorded_pure ?_
      have hdone := Disciplined.completed moved hreadings hcursor hsource hadapters hwrites
      simpa only [List.append_assoc, List.append_nil] using hdone

/-- A command reads the path, and then runs in the style of the document's project. -/
theorem recorded_command (f : Formatter m) (e : Editor m) :
    Recorded (f.traced.command (some e.traced)).run (f.command (some e)).run fun result calls =>
      ∃ path rest, calls = .path path :: rest ∧
        Disciplined f.settings (Style.resolve f.tree f.settings (f.projectStart path)) result
          rest := by
  unfold Formatter.command
  refine (recorded_record e.path _).bindLift ?_
  rintro path _ rfl
  exact (recorded_run f e f.settings _ true).mono fun result rest h => ⟨path, rest, rfl, h⟩

/-- Before a save the document is read until there is a reason to leave it alone, and run on as a whole
    if there is none. -/
theorem recorded_beforeSave (f : Formatter m) (e : Editor m) :
    Recorded (f.traced.beforeSave e.traced).run (f.beforeSave e).run (BeforeSave f) := by
  unfold Formatter.beforeSave
  refine (recorded_record e.path _).bindLift ?_
  rintro path _ rfl
  have hpath := Readings.single (c := .path path) rfl rfl
  -- Each reason is looked at after one more reading, and the run comes after all of them.
  cases path with
  | none => exact recorded_pure (.skipped .noPath hpath)
  | some path =>
      refine (recorded_reading e.isModified (fun _ => rfl) fun _ => rfl).bindExcept
        (fun failure calls h => .refused ((h.2 failure rfl).append hpath)) ?_
      rintro modified _ ⟨rfl, -⟩
      have hmodified := Readings.single (c := .isModified (.ok modified)) rfl rfl
      cases modified with
      | false => exact recorded_pure (.skipped .unmodified (hpath.append hmodified))
      | true =>
          refine (recorded_reading e.scope (fun _ => rfl) fun _ => rfl).bindExcept
            (fun failure calls h => .refused (((h.2 failure rfl).append hmodified).append hpath)) ?_
          rintro scope _ ⟨rfl, -⟩
          have hscope := Readings.single (c := .scope (.ok scope)) rfl rfl
          have hbefore := hpath.append (hmodified.append hscope)
          have hsettings : f.traced.settings = f.settings := rfl
          have htree : f.traced.tree = f.tree := rfl
          simp only [hsettings, htree]
          cases f.settings.formatsOnSave scope with
          | false => exact recorded_pure (.skipped .formatOnSaveDisabled hbefore)
          | true =>
              simp only [Bool.not_true, Bool.false_eq_true, if_false]
              cases Eligibility.isEligible f.tree path f.settings
                  (Style.resolve f.tree f.settings path) with
              | false => exact recorded_pure (.skipped .notSupported hbefore)
              | true =>
                  simp only [Bool.not_true, Bool.false_eq_true, if_false]
                  refine (recorded_run f e f.settings _ false).bindExcept ?_ ?_
                  · exact fun failure calls h => .ran hbefore rfl h
                  · intro result calls h
                    refine recorded_pure ?_
                    rw [List.append_nil]
                    exact .ran hbefore rfl h

/-- Whatever the editor and the libraries do, and on whatever occasion a document is formatted: the run
    reads, transforms, writes and restores in this order, it is given up with the first reading that is
    refused, and a fixer that fails keeps the document from being written. -/
theorem disciplined_run (f : Formatter m) (e : Editor m) :
    (∀ settings style selectionOnly,
      Recorded (f.traced.run e.traced settings style selectionOnly).run
        (f.run e settings style selectionOnly).run (Disciplined settings style)) ∧
    Recorded (f.traced.command (some e.traced)).run (f.command (some e)).run
      (fun result calls => ∃ path rest, calls = .path path :: rest ∧
        Disciplined f.settings (Style.resolve f.tree f.settings (f.projectStart path)) result
          rest) ∧
    (∀ style selectionOnly,
      Recorded (f.traced.format style selectionOnly (some e.traced)).run
        (f.format style selectionOnly (some e)).run (Disciplined f.settings style)) ∧
    Recorded (f.traced.beforeSave e.traced).run (f.beforeSave e).run (BeforeSave f) ∧
    (∀ settings style result calls, Disciplined settings style result calls →
      ∀ package text workdir cause, .lintFix package text workdir (.error cause) ∈ calls →
        ∀ c ∈ calls, c.isWrite = false) := by
  refine ⟨recorded_run f e, recorded_command f e, ?_, recorded_beforeSave f e, ?_⟩
  · exact fun style selectionOnly => recorded_run f e f.settings style selectionOnly
  · intro settings style result calls h package text workdir cause hfixer
    exact h.not_isWrite_of_fixer_error hfixer

section Witness

open Neovim

/-- A document in a running editor, shown by a window. -/
def shownDocument : Document :=
  { buffer := .ofNumber 1, number := 1, window := some ⟨.int 1000⟩, path := none,
    commandRange := none }

/-- A peer that answers where the cursor is and what the lines are, refuses new lines, and then lets
    the cursor be moved. -/
def refusesLines : Peer :=
  { replies :=
      [.ok (.array [.int 1, .int 0]), .ok (.array [.str "a;".toList]), .error Peer.silent,
        .ok (.int 1), .ok .nil] }

/-- A formatter whose fixer takes everything away. -/
def blanking : Formatter (StateM Peer) where
  tree := .empty
  source := .fixed { usePrettier := false }
  libraries := ⟨fun _ _ _ => pure (.ok []), fun _ _ _ => pure (.ok ⟨[⟨some []⟩]⟩)⟩

/-- The failure of a peer that refuses new lines. -/
def linesRefused : Failure :=
  .request (some .setLines) Peer.silent

/-- The calls of a run of which the writing is refused. -/
def refusedCalls : List Call :=
  [.cursor (.ok ⟨0, 0⟩), .text none (.ok "a;\n".toList), .path none,
    .lintFix "standard".toList "a;\n".toList none (.ok ⟨[⟨some []⟩]⟩),
    .write none [] (.error linesRefused), .moveCursor ⟨0, 0⟩ (.ok ())]

theorem disciplined_refusedCalls :
    LawfulMonad (StateM Peer) ∧
      ((blanking.traced.format .standard false
        (some (shownDocument.editor Peer.rpc).traced)).run.run [] refusesLines).1 =
          (.error linesRefused, refusedCalls) ∧
      ((blanking.format .standard false (some (shownDocument.editor Peer.rpc))).run.run
        refusesLines).1 = .error linesRefused ∧
      Disciplined blanking.settings .standard (.error linesRefused) refusedCalls := by
  have hrun : ((blanking.traced.format .standard false
      (some (shownDocument.editor Peer.rpc).traced)).run.run [] refusesLines).1 =
        (.error linesRefused, refusedCalls) := rfl
  rcases disciplined_run blanking (shownDocument.editor Peer.rpc) with ⟨-, -, hformat, -, -⟩
  have hdisciplined := (hformat .standard false).of_state refusesLines
  rw [StateT.run, hrun] at hdisciplined
  refine ⟨inferInstance, hrun, ?_, hdisciplined⟩
  -- Without the record the result is the same.
  rw [← (hformat .standard false).map_fst_run []]
  exact congrArg Prod.fst hrun

end Witness

end Restyle
