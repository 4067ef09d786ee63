import Restyle.Formatter
import Restyle.Proofs.Effects
import Restyle.Proofs.Lifting
import Restyle.Proofs.Memory.Place

/-!
# Formatting a Buffer

What a run does to a buffer in memory, for whatever the libraries answer.

Nothing that is asked of a buffer is refused, so the only effects of a run are those of the libraries,
and the run is an equation: it is the pipeline on one part of the text, followed by a new buffer that
depends on nothing but the result. The equation holds in every lawful monad, and so for libraries that
answer from a script, remember what they were asked, or talk to a process.

Each operation of the editor has an equation of its own. The run is computed with them from the first
operation to the last, and the parts of the text come in only at the end.

## Main definitions

* `Formatter.onBuffer`: A formatter for buffers, with libraries that do not see them.

## Theorems

* `run_capture`: What is read is the text that the run is for.
* `run_apply`: A result that differs is written where the source was read.
* `run_run`: A run is the pipeline followed by a change.
* `format_buffer`: Formatting replaces one part of the text and nothing else.
-/

namespace Restyle

variable {m : Type → Type} [Monad m]

/-- A formatter for buffers in memory, with libraries that do not see them. -/
def Formatter.onBuffer (tree : FileTree) (source : Settings.Source) (l : Libraries m) :
    Formatter (StateT Buffer m) :=
  { tree, source, libraries := l.lift }

variable [LawfulMonad m]

namespace Buffer

theorem run_path (b : Buffer) : (editor (m := m)).path.run b = pure (b.path, b) := by
  simp only [editor, StateT.run_bind, StateT.run_get, pure_bind, StateT.run_pure]

theorem run_text (b : Buffer) : (editor (m := m)).text.run.run b = pure (.ok b.text, b) :=
  run_read Buffer.text b

theorem run_cursor (b : Buffer) : (editor (m := m)).cursor.run.run b = pure (.ok b.cursor, b) :=
  run_read Buffer.cursor b

theorem run_selection (b : Buffer) :
    (editor (m := m)).selection.run.run b = pure (.ok b.selection, b) :=
  run_read Buffer.selection b

theorem run_textInRange (b : Buffer) (r : Range) :
    ((editor (m := m)).textInRange r).run.run b = pure (.ok (b.textInRange r), b) :=
  run_read (fun b : Buffer => b.textInRange r) b

theorem run_setCursor (b : Buffer) (p : Point) :
    ((editor (m := m)).setCursor p).run.run b = pure (.ok (), b.setCursor p) :=
  run_modify (fun b : Buffer => b.setCursor p) b

/-- Without a selection, or with one that is not for it, a run reads the whole text. -/
theorem run_captureAll (b : Buffer) :
    (Formatter.captureAll (editor (m := m)) b.cursor).run.run b =
      pure (.ok ⟨b.placeText none, none, b.cursor⟩, b) := by
  rw [Formatter.captureAll, run_bind_ok (run_text b), run_pure, placeText_none]

theorem run_selected (b : Buffer) (selectionOnly : Bool) :
    (Formatter.selected (editor (m := m)) selectionOnly).run.run b =
      pure (.ok (if selectionOnly then b.selection else none), b) := by
  cases selectionOnly with
  | true => exact run_selection b
  | false => exact run_pure _ b

/-- What is read is the text of the span that the run is for, and where it was read. -/
theorem run_capture (b : Buffer) (selectionOnly : Bool) :
    (Formatter.capture (editor (m := m)) selectionOnly).run.run b =
      pure (.ok ⟨b.placeText (b.workPlace selectionOnly), b.workPlace selectionOnly, b.cursor⟩, b)
      := by
  rw [Formatter.capture, run_bind_ok (run_cursor (m := m) b),
    run_bind_ok (run_selected (m := m) b selectionOnly), workPlace, Formatter.captureSelected]
  cases (if selectionOnly then b.selection else none) with
  | none => exact run_captureAll (m := m) b
  | some r =>
      cases hempty : r.isEmpty with
      | true =>
          -- It does not start before it ends, so both the run and the span disregard it.
          have horder : r.start.order r.stop ≠ .lt := by
            intro h
            rw [(Range.isEmpty_eq_false_iff r).mpr h] at hempty
            exact Bool.false_ne_true hempty
          rw [Option.filter_some_neg (by simp [hempty]), Option.filter_some_neg (by simp [horder])]
          exact run_captureAll (m := m) b
      | false =>
          have horder := (Range.isEmpty_eq_false_iff r).mp hempty
          rw [Option.filter_some_pos (by simp [hempty])]
          simp only []
          rw [run_bind_ok (run_textInRange (m := m) b r)]
          by_cases hnil : b.textInRange r = []
          · -- It starts before it ends, but there is no text between the ends.
            have hspan := (textInRange_eq_nil_iff b r).mp hnil
            rw [if_pos hnil, Option.filter_some_neg (by simp [hspan])]
            exact run_captureAll b
          · have hspan := Decidable.not_not.mp (mt (textInRange_eq_nil_iff b r).mpr hnil)
            rw [if_neg hnil, Option.filter_some_pos (by simp [horder, hspan])]
            exact run_pure _ b

/-- A result that differs from the source is written where the source was read. -/
theorem run_apply (b : Buffer) (request : FormatRequest) (t : Text) :
    (Formatter.apply (editor (m := m)) request t).run.run b =
      pure (.ok (), if t = request.source then b else b.setPlace request.selection t) := by
  unfold Formatter.apply
  by_cases h : t = request.source
  · rw [if_pos h, if_pos h, run_pure]
  · rw [if_neg h, if_neg h]
    cases request.selection with
    | some r => exact run_modify (fun b : Buffer => b.setTextInRange r t) b
    | none => exact run_modify (fun b : Buffer => b.setText t) b

/-- A run is the pipeline on the text of the span, and then a change that follows from its result. -/
theorem run_run (tree : FileTree) (source : Settings.Source) (l : Libraries m) (settings : Settings)
    (style : Style) (selectionOnly : Bool) (b : Buffer) :
    ((Formatter.onBuffer tree source l).run editor settings style selectionOnly).run.run b =
      (fun outcome => (.ok (), b.settle (b.workPlace selectionOnly) outcome.toOption)) <$>
        Pipeline.transform l (b.placeText (b.workPlace selectionOnly)) style settings.usePrettier
          (b.path.bind Path.parent?) := by
  unfold Formatter.run
  rw [ExceptT.run_mk, StateT.run_bind, run_capture, pure_bind]
  -- Only the pipeline has effects of its own. All that follows it is a change of the buffer.
  simp only [StateT.run_bind, run_path, pure_bind, Formatter.onBuffer, Pipeline.run_transform_lift,
    bind_map_left, run_apply, run_setCursor, StateT.run_pure]
  exact bind_pure_comp _ _

/-- Formatting a buffer succeeds, and replaces the text of the span that the run is for by the result
    of the pipeline, or by itself if the pipeline fails. What stands before the span and behind it
    stays, the cursor is brought into the new text, and the selection is given up if the text has
    changed. -/
theorem format_buffer (tree : FileTree) (source : Settings.Source) (l : Libraries m) (style : Style)
    (selectionOnly : Bool) (b : Buffer) :
    ∃ before piece behind, b.text = before ++ piece ++ behind ∧
      before.byteLength = (b.workSpan selectionOnly).start ∧
      (before ++ piece).byteLength = (b.workSpan selectionOnly).stop ∧
      ((Formatter.onBuffer tree source l).format style selectionOnly (some editor)).run.run b =
        (fun outcome =>
          let result := outcome.toOption.getD piece
          let text := before ++ result ++ behind
          (.ok (), { b with
            text
            cursor := text.clamp b.cursor
            selection := if result = piece then b.selection else none })) <$>
        Pipeline.transform l piece style (source.snapshot tree).usePrettier
          (b.path.bind Path.parent?) := by
  rcases b.exists_placeParts (b.workPlace selectionOnly) with ⟨before, piece, behind, ht, hs, he⟩
  refine ⟨before, piece, behind, ht, hs, he, ?_⟩
  -- The pipeline is given the part in the middle, and its result is put in the place of that part.
  have hrun := run_run tree source l (source.snapshot tree) style selectionOnly b
  simp only [placeText_eq ht hs he, settle_eq _ ht hs he] at hrun
  exact hrun

/-- Libraries of which the pre-formatter fails and the fixer always gives the same text. -/
def fixedAnswer (t : Text) : Libraries Id :=
  ⟨fun _ _ _ => .error (.library []), fun _ _ _ => .ok ⟨[⟨some t⟩]⟩⟩

/-- A buffer with a selection that starts inside a character and a cursor outside of the text. -/
def strayCursor : Buffer :=
  { text := "é;;\nb;".toList, cursor := ⟨7, 7⟩, selection := some ⟨⟨0, 1⟩, ⟨0, 4⟩⟩ }

theorem format_strayCursor :
    LawfulMonad Id ∧
      ((Formatter.onBuffer .empty (.fixed {}) (fixedAnswer "é".toList)).format
          .standard true (some editor)).run.run strayCursor =
        (.ok (), { text := "é\nb;".toList, cursor := ⟨1, 2⟩ }) := by
  refine ⟨inferInstance, ?_⟩
  rcases format_buffer .empty (.fixed {}) (fixedAnswer "é".toList) .standard true
    strayCursor with ⟨before, piece, behind, ht, hs, he, hrun⟩
  -- The lengths leave no choice for the three parts.
  have hbefore : before = [] := Text.eq_nil_of_byteLength hs
  subst hbefore
  have hpiece := Text.takeBytes_append piece behind
  have hbehind := Text.dropBytes_append piece behind
  rw [show piece.byteLength = 4 from he, show piece ++ behind = _ from ht.symm] at hpiece hbehind
  subst hpiece hbehind
  exact hrun

end Buffer

end Restyle
