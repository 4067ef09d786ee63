import Mathlib.Tactic.Choose
import Restyle.Proofs.Lifting
import Restyle.Proofs.Neovim.Target

/-!
# Formatting a Document

What a run does to the lines of a document, in an editor that does what is documented.

To follow a whole run, more has to be known of the editor than how it reads and writes. The marks are
where they are. What starts inside a character is sent, but not as a text. And a request that is not for
writing leaves the lines as they are, even if it is refused. `Attends` adds this to what is known of
reading. Of the cursor nothing is assumed: an editor may refuse to tell or to move it.

A run is then like one in memory. It reads the part that it is for, the pipeline works on the text of the
part, and a result that differs is written in its place. `Attends.run_cases` is this equation. Writing
may be seen by another view than reading, so it can also be known what has been written, and not only
what the lines are afterwards.

## Main definitions

* `Request.isWrite`: The requests that change lines.
* `Attends`: An editor does what is documented for a document, with its marks at certain positions.
* `Leaves`: An operation leaves the lines as they are.
* `Document.writing`: The request that writes a part.
* `runLines`: The lines after a run with a certain result.
* `within`: A view of the states that have a property.

## Theorems

* `Attends.ends_selection`: What is selected is the range between the marks.
* `Attends.capture_cases`: What is read is the part that the run is for.
* `Attends.ends_apply`: A result that differs is written to that part.
* `Attends.run_cases`: A run is the pipeline on a part, with its result in the place of that part.
* `Instance.attends`: An instance does what is documented.
-/

namespace Restyle.Neovim

open Lines

/-- A request that is made to change lines. -/
def Request.isWrite : Request → Bool
  | .setLines _ _ | .runScript .setText _ => true
  | _ => false

section Attendance

variable {σ : Type} (answer : σ → Request → Except RpcError Value × σ)
  (view : σ → Option (List Text))

/-- Lines stay as they are, whatever is asked, until something is written. -/
def Keeps : Prop :=
  ∀ s lines request, view s = some lines → request.isWrite = false →
    view (answer s request).2 = some lines

/-- An editor does what is documented for a document, with its marks at certain positions. -/
structure Attends (marks : (Int × Int) × (Int × Int)) (d : Document) : Prop
    extends Reads answer view d where
  /-- What starts inside a character is no text. -/
  getBytes : ∀ {s lines} {r : Range}, view s = some lines → Stored lines →
    isPlace lines r.start = false → isOnLine lines r.start → isPlace lines r.stop →
    r.start ≤ r.stop → ∃ value, value.str? = none ∧
      Replies answer view s (.runScript .getText (d.rangeArguments r)) value lines
  startMark : ∀ {s lines}, view s = some lines → ∃ value, value.pair? = some marks.1 ∧
    Replies answer view s (.mark d.buffer .selectionStart) value lines
  stopMark : ∀ {s lines}, view s = some lines → ∃ value, value.pair? = some marks.2 ∧
    Replies answer view s (.mark d.buffer .selectionStop) value lines
  keeps : Keeps answer view

variable {m : Type → Type} [Monad m]

/-- An operation may be refused, but it leaves the lines as they are. What it gives has a property. -/
def Leaves {α : Type} (x : ExceptT Failure (StateT σ m) α) (P : α → Prop) : Prop :=
  ∀ s lines, view s = some lines → ∃ result s', x.run.run s = pure (result, s') ∧
    view s' = some lines ∧ ∀ a, result = .ok a → P a

end Attendance

namespace Document

/-- The request that writes a text to a part, or as a whole. -/
def writing (d : Document) (lines : List Text) (place : Option Range) (t : Text) : Request :=
  match place with
  | none => .setLines d.buffer (storedLines t)
  | some r => .runScript .setText (d.rangeArguments r ++ [.str (fitted lines r t)])

end Document

section Operations

variable {σ : Type} {answer : σ → Request → Except RpcError Value × σ}
  {view view' : σ → Option (List Text)} {m : Type → Type} [Monad m] [LawfulMonad m] {α β : Type}

namespace Leaves

omit [LawfulMonad m] in
theorem pure {P : α → Prop} {a : α} (h : P a) :
    Leaves view (Pure.pure a : ExceptT Failure (StateT σ m) α) P := by
  intro s lines hview
  refine ⟨.ok a, s, rfl, hview, ?_⟩
  rintro _ ⟨⟩
  exact h

/-- What follows is left out after a failure, and otherwise leaves the lines itself. -/
theorem bind {x : ExceptT Failure (StateT σ m) α} {f : α → ExceptT Failure (StateT σ m) β}
    {P : α → Prop} {Q : β → Prop} (h : Leaves view x P) (hf : ∀ a, P a → Leaves view (f a) Q) :
    Leaves view (x >>= f) Q := by
  intro s lines hview
  rcases h s lines hview with ⟨result, s', hrun, hview', hP⟩
  cases result with
  | error failure =>
      exact ⟨.error failure, s', run_bind_error f hrun, hview', fun _ h => nomatch h⟩
  | ok a =>
      rcases hf a (hP a rfl) s' lines hview' with ⟨result', s'', hrun', hview'', hQ⟩
      exact ⟨result', s'', (run_bind_ok hrun).trans hrun', hview'', hQ⟩

/-- Asking for something leaves the lines, and what is heard was answered. -/
theorem ask {request : Request} {activity : Option Activity} {content : Value → Option α}
    {P : α → Prop} (h : Keeps answer view) (hwrite : request.isWrite = false)
    (hP : ∀ s lines value s' a, view s = some lines → answer s request = (.ok value, s') →
      content value = some a → P a) :
    Leaves view (Rpc.ask (serve (m := m) answer) activity request content) P := by
  intro s lines hview
  refine ⟨_, _, run_ask_serve answer s activity request content, h s lines request hview hwrite, ?_⟩
  intro a hheard
  rcases content_of_heard hheard with ⟨value, hvalue, hcontent⟩
  exact hP s lines value _ a hview (Prod.ext hvalue rfl) hcontent

/-- Asking for something leaves the lines, whatever is heard. -/
theorem asked {request : Request} {activity : Option Activity} {content : Value → Option α}
    (h : Keeps answer view) (hwrite : request.isWrite = false) :
    Leaves view (Rpc.ask (serve (m := m) answer) activity request content) fun _ => True :=
  ask h hwrite fun _ _ _ _ _ _ _ _ => trivial

end Leaves

section Cursor

variable {d : Document} (h : Keeps answer view)

include h

theorem leaves_cursor : Leaves view (d.cursor (serve (m := m) answer)) fun _ => True := by
  unfold Document.cursor
  cases d.window with
  | none => exact Leaves.pure trivial
  | some w => exact (Leaves.asked h rfl).bind fun position _ => Leaves.pure trivial

theorem leaves_setCursor (p : Point) :
    Leaves view (d.setCursor (serve (m := m) answer) p) fun _ => True := by
  unfold Document.setCursor
  cases d.window with
  | none => exact Leaves.pure trivial
  | some w => exact (Leaves.asked h rfl).bind fun count _ => Leaves.asked h rfl

end Cursor

section Capture

variable {marks : (Int × Int) × (Int × Int)} {d : Document} (h : Attends answer view marks d)
  {s : σ} {lines : List Text} (hview : view s = some lines) (hlines : Stored lines)
  (hcount : (lines.length : Int) ≤ Int64.maxValue.toInt)

include h hview hlines hcount

/-- What is selected is the range between the marks, if there is a command. -/
theorem Attends.ends_selection :
    Ends view s (d.selection (serve (m := m) answer)) (marked lines d.commandRange marks) lines := by
  unfold Document.selection marked
  cases d.commandRange with
  | none => exact ends_pure _ hview
  | some range =>
      rcases range with ⟨first, last⟩
      rcases h.startMark hview with ⟨start, hstart, hreply⟩
      refine Ends.bind (ends_ask hreply hstart _) fun s₁ hview₁ => ?_
      rcases h.stopMark hview₁ with ⟨stop, hstop, hreply'⟩
      refine Ends.bind (ends_ask hreply' hstop _) fun s₂ hview₂ => ?_
      -- The marks may be those around the lines instead of the ones that were asked for.
      rcases hmarks : Document.selectionMarks first last marks.1 marks.2 with ⟨start, stop⟩
      simp only [hmarks]
      by_cases hguard : start.1 < 1 ∨ stop.1 < start.1
      · -- The lines are not read, but there would be no range anyway.
        have hnone : Selection.range? start stop (lineAt lines (start.1 - 1))
            (lineAt lines (stop.1 - 1)) lines.length = none :=
          range?_eq_none_of_not_rows (by omega)
        rw [if_pos hguard, hnone]
        exact ends_pure _ hview₂
      · rw [if_neg hguard]
        refine Ends.bind (h.ends_line hview₂ hlines _) fun s₃ hview₃ => ?_
        refine Ends.bind (h.ends_line hview₃ hlines _) fun s₄ hview₄ => ?_
        refine Ends.bind (h.ends_lineCount hview₄ hlines hcount) fun s₅ hview₅ => ?_
        exact ends_pure _ hview₅

omit hcount in
theorem Attends.ends_captureAll (cursor : Point) :
    Ends view s (Formatter.captureAll (d.editor (serve (m := m) answer)) cursor)
      ⟨part lines none, none, cursor⟩ lines := by
  unfold Formatter.captureAll
  exact Ends.bind (h.ends_text hview hlines) fun s' hview' => ends_pure _ hview'

omit hcount in
/-- The text of a selection is read if it starts at a place. Otherwise all lines are. -/
theorem Attends.ends_captureSelected {r : Range} {first last : Int} (hr : Covers lines first last r)
    (cursor : Point) :
    Ends view s (Formatter.captureSelected (d.editor (serve (m := m) answer)) cursor (some r))
      (let place := (some r).filter (isPlace lines ·.start)
       ⟨part lines place, place, cursor⟩) lines := by
  have hle := Range.le_of_isEmpty_eq_false hr.nonempty
  -- A range for a command is never empty, so this filter does nothing.
  have hkept : (some r).filter (!·.isEmpty) = some r :=
    Option.filter_some_pos (by rw [hr.nonempty]; rfl)
  unfold Formatter.captureSelected
  rw [hkept]
  cases hplace : isPlace lines r.start with
  | true =>
      have hpart : IsPart lines r := ⟨hplace, hr.stop_place, hr.nonempty⟩
      have hselected : (some r).filter (isPlace lines ·.start) = some r :=
        Option.filter_some_pos hplace
      rw [hselected]
      refine Ends.bind (h.ends_textInRange hview hlines hplace hr.stop_place hle) fun s' hview' => ?_
      rw [if_neg (hpart.between_ne_nil hlines)]
      exact ends_pure _ hview'
  | false =>
      have hselected : (some r).filter (isPlace lines ·.start) = none :=
        Option.filter_some_neg hplace
      rw [hselected]
      -- The answer is no text, and it reads as an empty one.
      rcases h.getBytes hview hlines hplace hr.start_onLine hr.stop_place hle with
        ⟨value, hvalue, hreply⟩
      have hread : Ends view s (d.textInRange (serve (m := m) answer) r) [] lines := by
        unfold Document.textInRange
        refine Ends.bind (ends_ask hreply rfl _) fun s' hview' => ?_
        rw [hvalue]
        exact ends_pure _ hview'
      refine Ends.bind hread fun s' hview' => ?_
      exact h.ends_captureAll hview' hlines cursor

/-- What is read is the part that a run is for, unless the cursor is not told. -/
theorem Attends.capture_cases (selectionOnly : Bool) :
    let place := target lines selectionOnly d.commandRange marks
    let capture := Formatter.capture (d.editor (serve (m := m) answer)) selectionOnly
    (∃ failure s', capture.run.run s = pure (.error failure, s') ∧ view s' = some lines) ∨
      ∃ cursor, Ends view s capture ⟨part lines place, place, cursor⟩ lines := by
  intro place capture
  rcases leaves_cursor (m := m) (d := d) h.keeps s lines hview with ⟨result, s₁, hrun, hview₁, -⟩
  cases result with
  | error failure =>
      exact .inl ⟨failure, s₁, run_bind_error _ hrun, hview₁⟩
  | ok cursor =>
      -- From here on nothing can be refused.
      refine .inr ⟨cursor, Ends.bind ⟨s₁, hrun, hview₁⟩ fun s₁ hview₁ => ?_⟩
      cases selectionOnly with
      | false =>
          refine Ends.bind (ends_pure none hview₁) fun s₂ hview₂ => ?_
          exact h.ends_captureAll hview₂ hlines cursor
      | true =>
          refine Ends.bind (h.ends_selection hview₁ hlines hcount) fun s₂ hview₂ => ?_
          cases hmarked : marked lines d.commandRange marks with
          | none =>
              have hplace : place = none := by
                change target lines true _ _ = none
                rw [target, if_pos rfl, hmarked]
                rfl
              rw [hplace]
              exact h.ends_captureAll hview₂ hlines cursor
          | some r =>
              have hplace : place = (some r).filter (isPlace lines ·.start) := by
                change target lines true _ _ = _
                rw [target, if_pos rfl, hmarked]
              rcases covers_of_marked hmarked with ⟨first, last, -, hcovers⟩
              rw [hplace]
              exact h.ends_captureSelected hview₂ hlines hcovers cursor

end Capture

section Writing

variable {d : Document} {marks : (Int × Int) × (Int × Int)} {s : σ} {lines : List Text}
  {place : Option Range}

/-- A document in an editor that does what is documented is written to by one request. -/
theorem Serves.replies_writing (h : Serves answer view d) (hview : view s = some lines)
    (hlines : Stored lines) (hplace : ∀ r ∈ place, IsPart lines r) (t : Text) :
    Replies answer view s (d.writing lines place t) .nil (withPart lines place t) := by
  cases place with
  | none => exact h.setLines hview hlines (stored_lines _)
  | some r =>
      have hpart := hplace r rfl
      exact h.setText _ hview hlines hpart.start_place hpart.stop_place hpart.le

/-- A result that differs from the text of a part is written in its place. Only the last request is
    for writing, and what it leaves may be seen by another view. -/
theorem Attends.ends_apply (h : Attends answer view marks d) (hview : view s = some lines)
    (hlines : Stored lines) (hcount : (lines.length : Int) ≤ Int64.maxValue.toInt)
    (hplace : ∀ r ∈ place, IsPart lines r) {t : Text} (hne : t ≠ part lines place) (cursor : Point)
    (hwrite : ∀ s', view s' = some lines →
      Replies answer view' s' (d.writing lines place t) .nil (withPart lines place t)) :
    Ends view' s (Formatter.apply (d.editor (serve (m := m) answer))
      ⟨part lines place, place, cursor⟩ t) () (withPart lines place t) := by
  unfold Formatter.apply
  rw [if_neg hne]
  cases place with
  | none => exact ends_done (hwrite s hview) _
  | some r =>
      have hpart := hplace r rfl
      exact h.ends_setTextInRange hview hlines hcount hpart.start_place hpart.stop_place hpart.le t
        hwrite

end Writing

section Run

variable {marks : (Int × Int) × (Int × Int)} {d : Document} {lines : List Text} {s : σ}

/-- The lines after a run with a certain result. -/
def runLines (lines : List Text) (place : Option Range) (t : Text) : List Text :=
  if t = part lines place then lines else withPart lines place t

/-- What comes after the pipeline: the result is written if it differs, and the cursor is put back. -/
theorem Attends.exists_finish (h : Attends answer view marks d) (hview : view s = some lines)
    (hlines : Stored lines) (hcount : (lines.length : Int) ≤ Int64.maxValue.toInt)
    {place : Option Range} (hplace : ∀ r ∈ place, IsPart lines r) (cursor : Point) (t : Text)
    (hkeeps : Keeps answer view')
    (hsame : t = part lines place → ∀ s', view s' = some lines → view' s' = some lines)
    (hwrite : t ≠ part lines place → ∀ s', view s' = some lines →
      Replies answer view' s' (d.writing lines place t) .nil (withPart lines place t)) :
    let e := d.editor (serve (m := m) answer)
    ∃ s', (do
        let applied ← (Formatter.apply e ⟨part lines place, place, cursor⟩ t).run
        let _ ← (e.setCursor cursor).run
        pure applied).run s = pure (.ok (), s') ∧
      view' s' = some (runLines lines place t) := by
  intro e
  have happly : Ends view' s (Formatter.apply e ⟨part lines place, place, cursor⟩ t) ()
      (runLines lines place t) := by
    by_cases ht : t = part lines place
    · rw [runLines, if_pos ht]
      unfold Formatter.apply
      rw [if_pos ht]
      exact ends_pure () (hsame ht s hview)
    · rw [runLines, if_neg ht]
      exact h.ends_apply hview hlines hcount hplace ht cursor (hwrite ht)
  rcases happly with ⟨s₁, hrun, hview₁⟩
  -- The cursor may not be put back, but that is not reported and leaves the lines.
  rcases leaves_setCursor (m := m) (d := d) hkeeps cursor s₁ _ hview₁ with
    ⟨moved, s₂, hmove, hview₂, -⟩
  change (e.setCursor cursor).run.run s₁ = _ at hmove
  refine ⟨s₂, ?_, hview₂⟩
  rw [StateT.run_bind, hrun, pure_bind, StateT.run_bind, hmove, pure_bind]
  rfl

/-- A run fails with the lines as they were, because the cursor was not told. Or it is the pipeline on
    the part that it is for, followed by the writing of the result if that differs. What becomes of
    each result is seen by a view of its own, which sees what reading does if nothing is written. -/
theorem Attends.run_cases (h : Attends answer view marks d) (hview : view s = some lines)
    (hlines : Stored lines) (hcount : (lines.length : Int) ≤ Int64.maxValue.toInt)
    (f : Formatter m) (settings : Settings) (style : Style) (selectionOnly : Bool)
    (views : Text → σ → Option (List Text)) (hkeeps : ∀ t, Keeps answer (views t)) :
    let place := target lines selectionOnly d.commandRange marks
    let run := (f.lift.run (d.editor (serve answer)) settings style selectionOnly).run.run s
    (∀ t, t = part lines place → ∀ s', view s' = some lines → views t s' = some lines) →
    (∀ t, t ≠ part lines place → ∀ s', view s' = some lines →
      Replies answer (views t) s' (d.writing lines place t) .nil (withPart lines place t)) →
    (∃ failure s', run = pure (.error failure, s') ∧ view s' = some lines) ∨
      ∃ after : Except FixerFailure Text → σ,
        (run = (fun outcome => (.ok (), after outcome)) <$>
          Pipeline.transform f.libraries (part lines place) style settings.usePrettier
            (d.path.bind Path.parent?)) ∧
        ∀ outcome : Except FixerFailure Text,
          let t := outcome.toOption.getD (part lines place)
          views t (after outcome) = some (runLines lines place t) := by
  intro place run hsame hwrite
  have hplace : ∀ r ∈ place, IsPart lines r := fun r hr => isPart_of_target hr
  have hrun : run = _ := congrArg (StateT.run · s) (ExceptT.run_mk _)
  rcases h.capture_cases (m := m) hview hlines hcount selectionOnly with
    ⟨failure, s₁, hcapture, hview₁⟩ | ⟨cursor, s₁, hcapture, hview₁⟩
  · refine .inl ⟨failure, s₁, ?_, hview₁⟩
    rw [hrun, StateT.run_bind, hcapture, pure_bind]
    rfl
  · right
    have hfinish (outcome : Except FixerFailure Text) :=
      let t := outcome.toOption.getD (part lines place)
      h.exists_finish (m := m) hview₁ hlines hcount hplace cursor t (hkeeps t)
        (hsame t) (hwrite t)
    -- What comes after the pipeline has one result, so it is a function of the outcome.
    choose after hafter hviews using hfinish
    refine ⟨after, ?_, hviews⟩
    rw [hrun, StateT.run_bind, hcapture, pure_bind]
    -- Only the pipeline has effects of its own.
    have hpath : (d.editor (serve (m := m) answer)).path.run s₁ = pure (d.path, s₁) := rfl
    have hlibraries : (f.lift : Formatter (StateT σ m)).libraries = f.libraries.lift := rfl
    dsimp only
    rw [StateT.run_bind, hpath, pure_bind, StateT.run_bind, hlibraries,
      Pipeline.run_transform_lift, bind_map_left]
    exact (bind_congr hafter).trans (bind_pure_comp _ _)

end Run

section Within

variable {P : σ → Prop} [DecidablePred P]

/-- A view of the states that have a property. -/
def within (P : σ → Prop) [DecidablePred P] (view : σ → Option (List Text)) (s : σ) :
    Option (List Text) :=
  if P s then view s else none

theorem within_eq_some {s : σ} {lines : List Text} :
    within P view s = some lines ↔ P s ∧ view s = some lines := by
  unfold within
  by_cases h : P s
  · rw [if_pos h, and_iff_right h]
  · rw [if_neg h]
    exact iff_of_false (Option.some_ne_none _ ·.symm) fun hboth => h hboth.1

theorem Replies.within {s : σ} {request : Request} {value : Value} {lines : List Text}
    (h : Replies answer view s request value lines) (hP : P (answer s request).2) :
    Replies answer (within P view) s request value lines := by
  rcases h with ⟨s', hanswer, hview⟩
  rw [hanswer] at hP
  exact ⟨s', hanswer, within_eq_some.mpr ⟨hP, hview⟩⟩

/-- Requests are carried out as well where a property is looked at that none of them changes. -/
theorem Serves.within {d : Document} (h : Serves answer view d)
    (hP : ∀ s request, P s → P (answer s request).2) : Serves answer (within P view) d where
  lineCount := fun hview hlines hcount =>
    let ⟨hs, hview⟩ := within_eq_some.mp hview
    (h.lineCount hview hlines hcount).within (hP _ _ hs)
  getLines := fun first last hview hlines =>
    let ⟨hs, hview⟩ := within_eq_some.mp hview
    (h.getLines first last hview hlines).within (hP _ _ hs)
  setLines := fun hview hlines hnew =>
    let ⟨hs, hview⟩ := within_eq_some.mp hview
    (h.setLines hview hlines hnew).within (hP _ _ hs)
  getText := fun hview hlines hp hq hle =>
    let ⟨hs, hview⟩ := within_eq_some.mp hview
    (h.getText hview hlines hp hq hle).within (hP _ _ hs)
  setText := fun t hview hlines hp hq hle =>
    let ⟨hs, hview⟩ := within_eq_some.mp hview
    (h.setText t hview hlines hp hq hle).within (hP _ _ hs)

end Within

end Operations

namespace Instance

/-- An instance with its marks at certain positions. -/
abbrev marked (number : Int) (marks : (Int × Int) × (Int × Int)) : Instance → Option (List Text) :=
  within (·.selection = marks) (view number)

theorem runScript_frame (i : Instance) (script : Script) (arguments : List Value) :
    (i.runScript script arguments).2.selection = i.selection ∧
      (script ≠ .setText → (i.runScript script arguments).2.buffer = i.buffer ∧
        (i.runScript script arguments).2.lines = i.lines) := by
  unfold runScript
  split
  · exact ⟨rfl, fun _ => ⟨rfl, rfl⟩⟩
  · split <;> exact ⟨rfl, fun _ => ⟨rfl, rfl⟩⟩
  · exact ⟨rfl, fun _ => ⟨rfl, rfl⟩⟩
  · split <;> exact ⟨rfl, fun _ => ⟨rfl, rfl⟩⟩
  · refine ⟨?_, fun h => absurd rfl h⟩
    split
    · split <;> rfl
    · rfl
  · exact ⟨rfl, fun _ => ⟨rfl, rfl⟩⟩

/-- No request moves the marks, and only those for writing change the lines. -/
theorem answer_frame (i : Instance) (request : Request) :
    (i.answer request).2.selection = i.selection ∧
      (request.isWrite = false → (i.answer request).2.buffer = i.buffer ∧
        (i.answer request).2.lines = i.lines) := by
  -- The requests that change anything are looked at one by one.
  cases request with
  | setLines b lines =>
      refine ⟨?_, fun h => nomatch h⟩
      rw [answer]
      split <;> rfl
  | setCursor w row column =>
      rw [answer, moveCursor]
      split
      · split <;> exact ⟨rfl, fun _ => ⟨rfl, rfl⟩⟩
      · exact ⟨rfl, fun _ => ⟨rfl, rfl⟩⟩
  | runScript script arguments =>
      have hframe := i.runScript_frame script arguments
      refine ⟨hframe.1, fun h => hframe.2 ?_⟩
      rintro rfl
      cases h
  | _ => exact ⟨rfl, fun _ => ⟨rfl, rfl⟩⟩

/-- An instance serves a document wherever its marks are. -/
theorem serves_marked {d : Document} (hd : d.buffer = .ofNumber d.number)
    (marks : (Int × Int) × (Int × Int)) : Serves answer (marked d.number marks) d :=
  (serves hd).within fun i request h => (i.answer_frame request).1.trans h

/-- An instance does what is documented, if its marks can be sent. -/
theorem attends {d : Document} (hd : d.buffer = .ofNumber d.number)
    {marks : (Int × Int) × (Int × Int)} (hstart : (position marks.1).pair? = some marks.1)
    (hstop : (position marks.2).pair? = some marks.2) :
    Attends answer (marked d.number marks) marks d where
  toReads := (serves_marked hd marks).reads
  getBytes := by
    intro i lines r hview hlines hp hon hq hle
    rcases within_eq_some.mp hview with ⟨hmarks, hbase⟩
    rcases eq_of_view hbase with ⟨hbuffer, rfl⟩
    -- The bytes are sent as they are.
    refine ⟨.bin (bytesBetween i.lines r), rfl, i, ?_, hview⟩
    rw [answer, Document.rangeArguments, runScript, point?_natCast, point?_natCast]
    simp only [hbuffer, if_true, sent, hp, hon, isOnLine_of_isPlace hq, hle, decide_true,
      Bool.and_true, Bool.false_and, Bool.false_eq_true, if_false]
  startMark := by
    intro i lines hview
    rcases within_eq_some.mp hview with ⟨rfl, hbase⟩
    rcases eq_of_view hbase with ⟨hbuffer, -⟩
    refine ⟨_, hstart, i, ?_, hview⟩
    rw [hd, ← hbuffer, answer, reading, beq_self_eq_true, if_pos rfl]
    rfl
  stopMark := by
    intro i lines hview
    rcases within_eq_some.mp hview with ⟨rfl, hbase⟩
    rcases eq_of_view hbase with ⟨hbuffer, -⟩
    refine ⟨_, hstop, i, ?_, hview⟩
    rw [hd, ← hbuffer, answer, reading, beq_self_eq_true, if_pos rfl]
    rfl
  keeps := by
    intro i lines request hview hwrite
    rcases within_eq_some.mp hview with ⟨hmarks, hbase⟩
    rcases i.answer_frame request with ⟨hselection, hframe⟩
    rcases hframe hwrite with ⟨hbuffer, hsame⟩
    refine within_eq_some.mpr ⟨hselection.trans hmarks, ?_⟩
    rwa [view, hbuffer, hsame]

end Instance

end Restyle.Neovim
