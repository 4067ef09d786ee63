import Restyle.Proofs.Clamping
import Restyle.Proofs.Memory.BeforeSave

/-!
# Formatting Twice

When a buffer that was formatted is not changed by being formatted again.

The libraries decide about the text, so something has to be asked of them: a text that the pipeline has
given is one that it gives back. If the pipeline fails on the text of a buffer, nothing is asked of it.
What is left is what a run does beside the text. It brings the cursor into the text, which is done after
the first run, since a clamped point is not clamped any further. And it gives the selection up only for
a text that differs, which the second does not.

Before a save there are reasons to leave a buffer alone, and the first run can only bring one about that
was not there: the text may have become the one that is saved. In each case the second run leaves the
buffer as it is.

## Main definitions

* `Settles`: A pipeline gives back what it gives for a text.

## Theorems

* `settle_eq_self`: A run that changes neither text nor cursor changes nothing.
* `run_format_settle`: Nor does a second run, once the pipeline has settled.
* `format_twice`: A buffer that is formatted twice is as it was after the first time.
-/

namespace Restyle

/-- What a pipeline gives for a text, if it gives one, it gives back for that. -/
def Pipeline.Settles (pipeline : Text → Except FixerFailure Text) (t : Text) : Prop :=
  ∀ result, pipeline t = .ok result → pipeline result = .ok result

/-- Where a pipeline has settled, its result is what is left of it for the next time. -/
theorem Pipeline.Settles.getD_toOption {pipeline : Text → Except FixerFailure Text} {t : Text}
    (h : Settles pipeline t) :
    (pipeline ((pipeline t).toOption.getD t)).toOption.getD ((pipeline t).toOption.getD t) =
      (pipeline t).toOption.getD t := by
  cases ht : pipeline t with
  | error failure =>
      -- The text is kept, and the pipeline fails on it again.
      simp only [Except.toOption, Option.getD_none, ht]
  | ok result =>
      simp only [Except.toOption, Option.getD_some, h result ht]

namespace Buffer

/-- A run on the whole text leaves the result, or the text if there is none. -/
theorem text_settle (b : Buffer) (result : Option Text) :
    (b.settle none result).text = result.getD b.text := by
  unfold settle
  rw [placeText_none]
  by_cases h : result.getD b.text = b.text
  · rw [if_pos h, h]
    rfl
  · rw [if_neg h]
    rfl

/-- A run moves the cursor last, so it is in the text afterwards. -/
theorem clamp_cursor_settle (b : Buffer) (place : Option Range) (result : Option Text) :
    (b.settle place result).text.clamp (b.settle place result).cursor =
      (b.settle place result).cursor :=
  Text.clamp_clamp _ _

/-- A run that gives the text back changes nothing, if the cursor is in the text. -/
theorem settle_eq_self {b : Buffer} {result : Option Text} (htext : result.getD b.text = b.text)
    (hcursor : b.text.clamp b.cursor = b.cursor) : b.settle none result = b := by
  unfold settle
  rw [placeText_none, if_pos htext, setCursor, hcursor]

/-- Of the reasons to leave a buffer alone that changed since the last save, a new text can only bring
    about that it is the saved one. -/
theorem LeftAlone.of_text {tree : FileTree} {source : Settings.Source} {b b' : Buffer}
    {reason : SkipReason} (h : LeftAlone tree source b' reason) (hpath : b'.path = b.path)
    (hscope : b'.scope = b.scope) (hdirty : b.text ≠ b.saved) :
    (reason = .unmodified ∧ b'.text = b'.saved) ∨ LeftAlone tree source b reason := by
  cases reason with
  | noPath => exact .inr (hpath.symm.trans h)
  | unmodified => exact .inl ⟨rfl, h.2⟩
  | formatOnSaveDisabled =>
      rcases h with ⟨hsome, -, hoff⟩
      exact .inr ⟨hpath ▸ hsome, hdirty, hscope ▸ hoff⟩
  | notSupported =>
      rcases h with ⟨path, hsome, -, hon, hineligible⟩
      exact .inr ⟨path, hpath ▸ hsome, hdirty, hscope ▸ hon, hineligible⟩

/-- The pipeline that a run on a buffer uses. -/
def pipeline (tree : FileTree) (source : Settings.Source) (l : Libraries Id) (b : Buffer)
    (style : Style) (t : Text) : Except FixerFailure Text :=
  Pipeline.transform l t style (source.snapshot tree).usePrettier (b.path.bind Path.parent?)

section Twice

variable (tree : FileTree) (source : Settings.Source) (l : Libraries Id) (b : Buffer)

theorem run_format (style : Style) :
    ((Formatter.onBuffer tree source l).format style false (some editor)).run.run b =
      (.ok (), b.settle none (b.pipeline tree source l style b.text).toOption) := by
  have hrun := run_run tree source l (source.snapshot tree) style false b
  rw [show b.workPlace false = none from rfl, placeText_none] at hrun
  exact hrun

/-- Once the pipeline has settled, a second run leaves the buffer as it is. -/
theorem run_format_settle {style : Style}
    (h : Pipeline.Settles (b.pipeline tree source l style) b.text) :
    ((Formatter.onBuffer tree source l).format style false (some editor)).run.run
        (b.settle none (b.pipeline tree source l style b.text).toOption) =
      (.ok (), b.settle none (b.pipeline tree source l style b.text).toOption) := by
  rw [run_format]
  refine congrArg (Prod.mk _) (settle_eq_self ?_ (clamp_cursor_settle _ _ _))
  -- The path is the same, so the second run uses the same pipeline.
  have hpipeline : ∀ b' : Buffer, b'.path = b.path →
      b'.pipeline tree source l style = b.pipeline tree source l style := by
    intro b' hpath
    funext t
    rw [pipeline, pipeline, hpath]
  rw [hpipeline _ (b.file_settle none _).1, text_settle]
  exact h.getD_toOption

/-- What the second of two runs before a save comes to, after the first has left the buffer so. -/
def again (after : Buffer) (outcome : SaveOutcome) : SaveOutcome :=
  if after.path ≠ none ∧ after.text = after.saved then .skipped .unmodified else outcome

/-- A reason that holds is the one that is told again. -/
theorem again_of_leftAlone {reason : SkipReason} (h : LeftAlone tree source b reason) :
    b.again (.skipped reason) = .skipped reason := by
  unfold again
  cases reason with
  | noPath => rw [if_neg fun hb => hb.1 h]
  | unmodified => rw [ite_self]
  | formatOnSaveDisabled => rw [if_neg fun hb => h.2.1 hb.2]
  | notSupported =>
      rcases h with ⟨path, -, hdirty, -⟩
      rw [if_neg fun hb => hdirty hb.2]

/-- Before a save a buffer that was formatted is formatted again, or its text is now the saved one. -/
theorem run_beforeSave_settle {path : Path} (hpath : b.path = some path)
    (hfree : ∀ reason, ¬ LeftAlone tree source b reason)
    (h : Pipeline.Settles
      (b.pipeline tree source l (Style.resolve tree (source.snapshot tree) path)) b.text) :
    ∃ after,
      ((Formatter.onBuffer tree source l).beforeSave editor).run.run b = (.ok .formatted, after) ∧
      ((Formatter.onBuffer tree source l).beforeSave editor).run.run after =
        (.ok (after.again .formatted), after) := by
  rcases beforeSave_of_not_leftAlone hfree l with ⟨path', hpath', hrun⟩
  obtain rfl : path = path' := Option.some.inj (hpath.symm.trans hpath')
  rw [run_format] at hrun
  have htwice := run_format_settle tree source l b h
  rcases b.file_settle none (b.pipeline tree source l
    (Style.resolve tree (source.snapshot tree) path) b.text).toOption with ⟨hsame, hscope, -⟩
  refine ⟨_, hrun, ?_⟩
  generalize b.settle none _ = after at htwice hsame hscope ⊢
  have hsome : after.path ≠ none := by
    rw [hsame, hpath]
    exact Option.some_ne_none path
  unfold again
  by_cases hclean : after.text = after.saved
  · rw [if_pos ⟨hsome, hclean⟩]
    have hleft : LeftAlone tree source after .unmodified := ⟨hsome, hclean⟩
    exact beforeSave_of_leftAlone hleft l
  · rw [if_neg fun h => hclean h.2]
    have hdirty : b.text ≠ b.saved := fun heq => hfree .unmodified ⟨hsame ▸ hsome, heq⟩
    -- A reason that is not that the text is the saved one was there before.
    have hfree' : ∀ reason, ¬ LeftAlone tree source after reason := by
      intro reason hreason
      rcases hreason.of_text hsame hscope hdirty with ⟨-, hsaved⟩ | hreason
      · exact hclean hsaved
      · exact hfree reason hreason
    rcases beforeSave_of_not_leftAlone hfree' l with ⟨path', hpath', hrun'⟩
    obtain rfl : path = path' := Option.some.inj (hpath.symm.trans (hsame.symm.trans hpath'))
    rw [hrun', htwice]
    rfl

/-- A buffer that is formatted twice is as it was after the first time, wherever its cursor was, if the
    pipeline fails on its text or gives back what it gives for it. The same holds before a save,
    whether or not there is a reason to leave the buffer alone. What the second time comes to is the
    same too, except that the text may have become the one that is saved. -/
theorem format_twice :
    (∀ style, Pipeline.Settles (b.pipeline tree source l style) b.text →
      ∃ after,
        ((Formatter.onBuffer tree source l).format style false (some editor)).run.run b =
          (.ok (), after) ∧
        ((Formatter.onBuffer tree source l).format style false (some editor)).run.run after =
          (.ok (), after)) ∧
    ((∀ path, b.path = some path → Pipeline.Settles
        (b.pipeline tree source l (Style.resolve tree (source.snapshot tree) path)) b.text) →
      ∃ outcome after,
        ((Formatter.onBuffer tree source l).beforeSave editor).run.run b = (.ok outcome, after) ∧
        ((Formatter.onBuffer tree source l).beforeSave editor).run.run after =
          (.ok (after.again outcome), after)) := by
  constructor
  · intro style h
    exact ⟨_, run_format tree source l b style, run_format_settle tree source l b h⟩
  · intro h
    by_cases hreason : ∃ reason, LeftAlone tree source b reason
    · rcases hreason with ⟨reason, hreason⟩
      have hleave := beforeSave_of_leftAlone hreason l
      refine ⟨.skipped reason, b, hleave, ?_⟩
      rw [again_of_leftAlone tree source b hreason]
      exact hleave
    · have hfree := not_exists.mp hreason
      have hsome : b.path ≠ none := hfree .noPath
      rcases Option.ne_none_iff_exists'.mp hsome with ⟨path, hpath⟩
      exact ⟨.formatted, run_beforeSave_settle tree source l b hpath hfree (h path hpath)⟩

end Twice

/-- Libraries of which the fixer takes all semicolons away. -/
def dropSemicolons : Libraries Id :=
  ⟨fun text _ _ => .ok text, fun _ text _ => .ok ⟨[⟨some (text.filter (· ≠ ';'))⟩]⟩⟩

/-- A buffer with a cursor inside a character of two bytes, and a text that becomes the saved one. -/
def splitCursor : Buffer :=
  { path := some ⟨"a.js".toList⟩, text := "é;;\n".toList, saved := "é\n".toList,
    cursor := ⟨0, 1⟩, selection := some ⟨⟨0, 2⟩, ⟨0, 4⟩⟩ }

theorem format_twice_splitCursor :
    Pipeline.Settles (splitCursor.pipeline .empty (.fixed { formatOnSave := true })
        dropSemicolons .standard) splitCursor.text ∧
      ∃ after, after = { splitCursor with
          text := "é\n".toList, cursor := ⟨0, 0⟩, selection := none } ∧
        ((Formatter.onBuffer .empty (.fixed { formatOnSave := true })
          dropSemicolons).format .standard false (some editor)).run.run splitCursor =
            (.ok (), after) ∧
        ((Formatter.onBuffer .empty (.fixed { formatOnSave := true })
          dropSemicolons).format .standard false (some editor)).run.run after = (.ok (), after) ∧
        ((Formatter.onBuffer .empty (.fixed { formatOnSave := true })
          dropSemicolons).beforeSave editor).run.run splitCursor = (.ok .formatted, after) ∧
        ((Formatter.onBuffer .empty (.fixed { formatOnSave := true })
          dropSemicolons).beforeSave editor).run.run after =
            (.ok (.skipped .unmodified), after) := by
  have hsettles : Pipeline.Settles (splitCursor.pipeline .empty
      (.fixed { formatOnSave := true }) dropSemicolons .standard) splitCursor.text := by
    intro result hresult
    rw [← Except.ok.inj hresult]
    decide
  rcases format_twice .empty (.fixed { formatOnSave := true }) dropSemicolons
    splitCursor with ⟨hformat, hsave⟩
  rcases hformat .standard hsettles with ⟨after, honce, htwice⟩
  rcases hsave (fun path hpath => hsettles) with ⟨outcome, after', honce', htwice'⟩
  have hafter : after = { splitCursor with
      text := "é\n".toList, cursor := ⟨0, 0⟩, selection := none } :=
    (congrArg Prod.snd honce).symm
  obtain rfl : after = after' := hafter.trans (congrArg Prod.snd honce')
  obtain rfl : .formatted = outcome := Except.ok.inj (congrArg Prod.fst honce')
  refine ⟨hsettles, after, hafter, honce, htwice, honce', ?_⟩
  rw [htwice', hafter]
  rfl

end Buffer

end Restyle
