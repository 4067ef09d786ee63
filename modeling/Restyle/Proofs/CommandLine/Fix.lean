import Mathlib.Logic.Function.Iterate
import Restyle.CommandLine.Fix
import Restyle.Proofs.FileTree
import Restyle.Proofs.Memory.BeforeSave

/-!
# Fixing One File

What the program does with one of its paths, in terms of the file that the path leads to.

On the way a path is resolved, its file is loaded into a buffer, the buffer is formatted and written back
to the resolved path. All of this comes to a choice and one text. The choice is whether the file is
eligible. The text is what the pipeline makes of the file's text, or that text again if the pipeline
fails, so a file is written exactly if these two differ. The resolved path leads to the same file as the
one that was given, so what was read is what is written. The one thing that can still go wrong behind the
reading is that writing at this place is refused, which shows only if there is something to write.

## Main definitions

* `eligibleAt`: Whether the file at a place is eligible.
* `transformAt`, `fixedText`: What the pipeline makes of a text of that file.
* `visits`: How often paths lead to a place.
* `runAll`: The whole run, for libraries that are functions.

## Theorems

* `file_eq`: Fixing a file, with what the program goes through left out.
* `runAll_cons_error`, `runAll_cons_ok`: A run goes on behind a path that was fixed.
-/

namespace Restyle.CommandLine.Fix

open FileTree (Reached)

section Treatment

variable (l : Libraries Id) (source : Settings.Source) (tree : FileTree) (place : Location)

/-- The style of the file at a place. -/
def styleAt : Style :=
  Style.resolve tree (source.snapshot tree) place.path

/-- Whether the file at a place is eligible. -/
def eligibleAt : Bool :=
  Eligibility.isEligible tree place.path (source.snapshot tree) (styleAt source tree place)

/-- What the pipeline makes of a text of the file at a place. -/
def transformAt (t : Text) : Except FixerFailure Text :=
  Id.run (Pipeline.transform l t (styleAt source tree place) (source.snapshot tree).usePrettier
    place.path.parent?)

/-- A text after the file was fixed: what the pipeline makes of it, if it succeeds. -/
def fixedText (t : Text) : Text :=
  (transformAt l source tree place t).toOption.getD t

/-- How often paths lead to a place. -/
def visits (paths : List Path) : Nat :=
  paths.countP fun p => tree.destination p = .ok place

end Treatment

variable {l : Libraries Id} {source : Settings.Source} {tree : FileTree}

/-- Fixing changes a text if the pipeline succeeds on it with another one. -/
theorem fixedText_ne_iff {place : Location} {t : Text} :
    fixedText l source tree place t ≠ t ↔
      ∃ t', transformAt l source tree place t = .ok t' ∧ t' ≠ t := by
  rw [fixedText]
  cases transformAt l source tree place t with
  | error failure => exact ⟨fun h => absurd rfl h, fun ⟨_, h, _⟩ => nomatch h⟩
  | ok t' =>
      refine ⟨fun h => ⟨t', rfl, h⟩, ?_⟩
      rintro ⟨_, ⟨⟩, hne⟩
      exact hne

/-- What is fixed once more changes only if the first text did. -/
theorem fixedText_ne_of_iterate {place : Location} {t : Text} {times : Nat}
    (h : fixedText l source tree place ((fixedText l source tree place)^[times] t) ≠
      (fixedText l source tree place)^[times] t) : fixedText l source tree place t ≠ t := by
  intro heq
  rw [Function.iterate_fixed heq] at h
  exact h heq

theorem visits_pos_iff {place : Location} {paths : List Path} :
    0 < visits tree place paths ↔ ∃ p ∈ paths, tree.destination p = .ok place := by
  rw [visits, List.countP_pos_iff]
  simp only [decide_eq_true_eq]

theorem visits_append_of_eq {place : Location} {p : Path} (h : tree.destination p = .ok place)
    (done : List Path) : visits tree place (done ++ [p]) = visits tree place done + 1 := by
  rw [visits, List.countP_append, List.countP_singleton, if_pos (decide_eq_true h)]
  rfl

theorem visits_append_of_ne {place other : Location} {p : Path}
    (h : tree.destination p = .ok place) (hne : other ≠ place) (done : List Path) :
    visits tree other (done ++ [p]) = visits tree other done := by
  have hother : tree.destination p ≠ .ok other := by
    rw [h, ne_eq, Except.ok.injEq]
    exact hne.symm
  rw [visits, List.countP_append, List.countP_singleton, if_neg (by simp [hother])]
  rfl

/-- A buffer is written back if its text is not the one its file holds. -/
theorem writeBack_eq {tree : FileTree} {path : Path} {b : Buffer} {written : Except FileError FileTree}
    (hpath : b.path = some path) (hwrite : tree.write path b.text.toUtf8 = written) :
    writeBack tree path b =
      if b.text = b.saved then .ok (⟨.unchanged, path⟩, tree)
      else
        match written with
        | .ok after => .ok (⟨.fixed, path⟩, after)
        | .error cause => .error (.write path cause) := by
  rw [writeBack, Buffer.isModified]
  by_cases hsame : b.text = b.saved
  · rw [if_pos hsame, if_neg (by simp [hsame])]
    rfl
  · rw [if_neg hsame, if_pos (bne_iff_ne.mpr hsame), Buffer.save, hpath]
    simp only [hwrite]
    cases written with
    | ok after => rfl
    | error cause => rfl

/-- An eligible file that can be read is formatted in a buffer and written back. -/
theorem file_of_readText {p path : Path} {t : Text} (hresolve : tree.resolve p = .ok path)
    (heligible : Eligibility.isEligible tree path (source.snapshot tree)
      (Style.resolve tree (source.snapshot tree) path) = true)
    (hread : tree.readText path = .ok t) :
    Id.run (file source (fun _ => l) tree p) = Id.run (do
      match ← ((Formatter.onBuffer tree source l).format
        (Style.resolve tree (source.snapshot tree) path) false (some Buffer.editor)).run.run
          { Buffer.ofText t with path := some path, scope := Buffer.scopeOf path } with
      | (.ok (), buffer) => pure (writeBack tree path buffer)
      | (.error failure, _) => pure (.error failure)) := by
  rw [file, hresolve]
  simp only [heligible, Bool.not_true, Bool.false_eq_true, if_false, Buffer.load, hread]
  rfl

/-- Fixing a file, with what the program goes through left out. -/
theorem file_eq (hhere : Reached tree tree.workingDirectory) (p : Path) :
    Id.run (file source (fun _ => l) tree p) =
      match tree.destination p with
      | .error cause => .error (.resolve p cause)
      | .ok place =>
        if eligibleAt source tree place = false then .ok (⟨.skipped, place.path⟩, tree)
        else
          match tree.readText place.path with
          | .error cause => .error (.read place.path cause)
          | .ok t =>
            if fixedText l source tree place t = t then .ok (⟨.unchanged, place.path⟩, tree)
            else
              match tree.refusal? place with
              | some cause => .error (.write place.path cause)
              | none =>
                .ok (⟨.fixed, place.path⟩,
                  tree.put place (fixedText l source tree place t).toUtf8) := by
  have hresolve : tree.resolve p = (tree.destination p).map Location.path :=
    FileTree.resolve_eq_map p
  cases hplace : tree.destination p with
  | error cause =>
      rw [file, hresolve, hplace]
      rfl
  | ok place =>
      rw [hplace, Except.map] at hresolve
      have hfold : Eligibility.isEligible tree place.path (source.snapshot tree)
          (Style.resolve tree (source.snapshot tree) place.path) = eligibleAt source tree place := rfl
      cases heligible : eligibleAt source tree place with
      | false =>
          rw [file, hresolve]
          simp only [hfold, heligible]
          rfl
      | true =>
          cases hread : tree.readText place.path with
          | error cause =>
              rw [file, hresolve]
              simp only [hfold, heligible, Buffer.load, hread]
              rfl
          | ok t =>
              have hreached := FileTree.reached_of_destination hhere hplace
              have hwrite := FileTree.write_path (FileTree.ne_nil_of_readText_path hread) hreached
                hread (fixedText l source tree place t).toUtf8
              rw [file_of_readText hresolve (hfold.trans heligible) hread, Buffer.format_whole]
              simp only [heligible, Bool.true_eq_false, if_false, hread]
              cases hrefusal : tree.refusal? place with
              | some cause =>
                  rw [hrefusal] at hwrite
                  exact (writeBack_eq rfl hwrite).trans rfl
              | none =>
                  rw [hrefusal] at hwrite
                  exact (writeBack_eq rfl hwrite).trans rfl

/-- Fixing several files with libraries that are functions. -/
def runAll (l : Libraries Id) (source : Settings.Source) (tree : FileTree) (paths : List Path) :
    Outcome :=
  Id.run (files source (fun _ => l) tree paths)

theorem runAll_nil : runAll l source tree [] = { tree, reports := [], failure := none } :=
  rfl

theorem runAll_cons_error {p : Path} {rest : List Path} {failure : Failure}
    (h : Id.run (file source (fun _ => l) tree p) = .error failure) :
    runAll l source tree (p :: rest) = { tree, reports := [], failure := some failure } := by
  rw [runAll, files, Id.run_bind, h]
  rfl

theorem runAll_cons_ok {p : Path} {rest : List Path} {report : Report} {next : FileTree}
    (h : Id.run (file source (fun _ => l) tree p) = .ok (report, next)) :
    runAll l source tree (p :: rest) =
      { runAll l source next rest with
        reports := report :: (runAll l source next rest).reports } := by
  rw [runAll, files, Id.run_bind, h]
  rfl

end Restyle.CommandLine.Fix
