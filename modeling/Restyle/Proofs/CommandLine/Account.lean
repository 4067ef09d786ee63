import Restyle.Proofs.CommandLine.Fix
import Restyle.Proofs.Project.Locality

/-!
# Accounts of a Run

What a run has done to the files at any point, told by the tree it started from.

A run reads the settings, the manifests and the files anew for each path, from a tree that it changes as
it goes. But it writes only to files that it is asked to fix. As long as none of these holds the settings
or a manifest, which files are eligible and what the pipeline makes of a text are the same at every
point, and all that changes is the text of a file, which is fixed as often as a path has led to it. An
account says so, for the paths that are done. It also says that each of them has got the report that its
file deserved then, and a run goes from an account of some paths to an account of one path more until the
paths are at an end, or one of them ends the run.

A file that may not be written ends the run only if there is something to fix in it. It holds its first
text whenever a path leads to it, so it ends the run at the first of these paths or not at all, and what
ends a run can be told by the first tree, too.

That a tree has a working directory is not part of its type. `Reached` asks for that. The paths and the
names in a tree are texts.

## Main definitions

* `Apart`: No file to fix holds settings or a manifest.
* `Deserves`, `Reports`: The reports that paths get.
* `Ends`, `EndsBefore`: Why a path ends a run.
* `Account`: What there is once some paths are done.

## Theorems

* `Account.treatment_eq`: A file to fix is treated as in the first tree.
* `Reports.fixedText_eq`: A file that may not be written holds up a run that has something to fix in it.
* `Account.step`: One more path.
* `Account.run`: A whole run.
-/

namespace Restyle.CommandLine.Fix

open FileTree (Reached)

section Accounts

variable (l : Libraries Id) (source : Settings.Source) (tree : FileTree)

/-- Neither the settings nor the manifest of a file to fix is in a file to fix. -/
structure Apart (paths : List Path) : Prop where
  settings : ∀ settingsPath, source = .file settingsPath → ∀ p ∈ paths, ∀ place,
    tree.destination p = .ok place → tree.locate settingsPath ≠ .ok place
  manifests : ∀ q ∈ paths, ∀ home, tree.destination q = .ok home → ∀ dir ∈ home.path.ancestors,
    ∀ p ∈ paths, ∀ place, tree.destination p = .ok place →
      tree.locate (Manifest.inDirectory dir) ≠ .ok place

/-- The verdict that a file deserves after it was fixed so many times. -/
inductive Deserves (place : Location) (times : Nat) : Verdict → Prop where
  | skipped (ineligible : eligibleAt source tree place = false) : Deserves place times .skipped
  | fixed {t t' : Text} (eligible : eligibleAt source tree place = true)
      (read : tree.readText place.path = .ok t)
      (succeeds : transformAt l source tree place ((fixedText l source tree place)^[times] t) = .ok t')
      (differs : t' ≠ (fixedText l source tree place)^[times] t)
      (writable : tree.refusal? place = none) : Deserves place times .fixed
  | unchanged {t : Text} (eligible : eligibleAt source tree place = true)
      (read : tree.readText place.path = .ok t)
      (same : fixedText l source tree place ((fixedText l source tree place)^[times] t) =
        (fixedText l source tree place)^[times] t) : Deserves place times .unchanged

/-- The reports on paths, one for each and in their order. -/
inductive Reports : List Path → List Report → Prop where
  | none : Reports [] []
  | next {done : List Path} {reports : List Report} {p : Path} {place : Location}
      {verdict : Verdict} (before : Reports done reports)
      (resolved : tree.destination p = .ok place)
      (deserved : Deserves l source tree place (visits tree place done) verdict) :
      Reports (done ++ [p]) (reports ++ [⟨verdict, place.path⟩])

/-- Why a path ends the run: it cannot be resolved, its file cannot be read, or there is something to fix
    in the file and it cannot be written. -/
inductive Ends (p : Path) : Failure → Prop where
  | unresolved {cause : FileError} (h : tree.destination p = .error cause) : Ends p (.resolve p cause)
  | unreadable {place : Location} {cause : FileError} (resolved : tree.destination p = .ok place)
      (eligible : eligibleAt source tree place = true)
      (h : tree.readText place.path = .error cause) : Ends p (.read place.path cause)
  | unwritable {place : Location} {t t' : Text} {cause : FileError}
      (resolved : tree.destination p = .ok place) (eligible : eligibleAt source tree place = true)
      (read : tree.readText place.path = .ok t)
      (succeeds : transformAt l source tree place t = .ok t') (differs : t' ≠ t)
      (h : tree.refusal? place = some cause) : Ends p (.write place.path cause)

/-- What a run ends with when these paths are left: nothing, or why the first of them ends it. -/
def EndsBefore : List Path → Option Failure → Prop
  | [], failure => failure = none
  | p :: _, failure => ∃ f, failure = some f ∧ Ends l source tree p f

/-- What there is once some paths are done: the reports on them, and the tree that they leave. -/
structure Account (done : List Path) (reports : List Report) (after : FileTree) : Prop where
  reports : Reports l source tree done reports
  here : after.workingDirectory = tree.workingDirectory
  refusal : after.refusal? = tree.refusal?
  /-- A place that no path leads to, or whose file is not eligible, is left alone. -/
  untouched : ∀ place, visits tree place done = 0 ∨ eligibleAt source tree place = false →
    after.node? place = tree.node? place
  /-- An eligible file is fixed once for each path that leads to it. -/
  contents : ∀ place t, 0 < visits tree place done → eligibleAt source tree place = true →
    tree.readText place.path = .ok t →
    after.node? place =
      some (.file ((fixedText l source tree place)^[visits tree place done] t).toUtf8)

end Accounts

variable {l : Libraries Id} {source : Settings.Source} {tree : FileTree}

/-! ### Reports and ends -/

theorem Reports.length_eq {done : List Path} {reports : List Report}
    (h : Reports l source tree done reports) : done.length = reports.length := by
  induction h with
  | none => rfl
  | next before resolved deserved ih => rw [List.length_append, List.length_append, ih]; rfl

/-- What is reported on a path is what its file deserves at that point. -/
theorem Reports.deserves {done : List Path} {reports : List Report}
    (h : Reports l source tree done reports) {p : Path} {r : Report} (hmem : (p, r) ∈ done.zip reports) :
    ∃ place times, tree.destination p = .ok place ∧ r.path = place.path ∧
      Deserves l source tree place times r.verdict := by
  induction h with
  | none => exact nomatch hmem
  | @next done reports q place verdict before resolved deserved ih =>
      rw [List.zip_append before.length_eq, List.mem_append] at hmem
      rcases hmem with hmem | hmem
      · exact ih hmem
      · obtain ⟨rfl, rfl⟩ := Prod.mk.inj (List.mem_singleton.mp hmem)
        exact ⟨place, _, resolved, rfl, deserved⟩

/-- An eligible file that a path led to could be read. -/
theorem Deserves.exists_text {place : Location} {times : Nat} {verdict : Verdict}
    (h : Deserves l source tree place times verdict)
    (heligible : eligibleAt source tree place = true) :
    ∃ t, tree.readText place.path = .ok t := by
  cases h with
  | skipped hineligible => rw [hineligible] at heligible; exact nomatch heligible
  | fixed _ hread => exact ⟨_, hread⟩
  | unchanged _ hread => exact ⟨_, hread⟩

theorem Reports.exists_report {done : List Path} {reports : List Report}
    (h : Reports l source tree done reports) {p : Path} (hp : p ∈ done) :
    ∃ r, (p, r) ∈ done.zip reports := by
  have hmap : p ∈ (done.zip reports).map Prod.fst := by
    rwa [List.map_fst_zip (Nat.le_of_eq h.length_eq)]
  obtain ⟨⟨q, r⟩, hmem, rfl⟩ := List.mem_map.mp hmap
  exact ⟨r, hmem⟩

theorem Reports.exists_text {done : List Path} {reports : List Report}
    (h : Reports l source tree done reports) {place : Location}
    (hvisits : 0 < visits tree place done) (heligible : eligibleAt source tree place = true) :
    ∃ t, tree.readText place.path = .ok t := by
  obtain ⟨p, hp, hplace⟩ := visits_pos_iff.mp hvisits
  obtain ⟨r, hr⟩ := h.exists_report hp
  obtain ⟨home, times, hhome, -, hdeserves⟩ := h.deserves hr
  rw [hplace, Except.ok.injEq] at hhome
  exact (hhome ▸ hdeserves).exists_text heligible

/-- In a file that a run came past, and that may not be written, there is nothing to fix. -/
theorem Reports.fixedText_eq {done : List Path} {reports : List Report}
    (h : Reports l source tree done reports) {place : Location}
    (hvisits : 0 < visits tree place done) (heligible : eligibleAt source tree place = true) {t : Text}
    (hread : tree.readText place.path = .ok t) {cause : FileError}
    (hrefusal : tree.refusal? place = some cause) : fixedText l source tree place t = t := by
  induction h with
  | none => exact absurd hvisits (Nat.lt_irrefl 0)
  | @next done reports p home verdict before resolved deserved ih =>
      by_cases hne : place = home
      · subst hne
        by_cases hfirst : visits tree place done = 0
        · -- The first path that leads there finds the first text.
          rw [hfirst] at deserved
          cases deserved with
          | skipped hineligible => rw [hineligible] at heligible; exact nomatch heligible
          | fixed _ _ _ _ hwritable => rw [hwritable] at hrefusal; exact nomatch hrefusal
          | unchanged _ hagain hsame =>
              obtain rfl := Except.ok.inj (hagain.symm.trans hread)
              exact hsame
        · exact ih (Nat.pos_of_ne_zero hfirst)
      · rw [visits_append_of_ne resolved hne] at hvisits
        exact ih hvisits

/-- A path that was come past does not end a run. -/
theorem Reports.not_ends {done : List Path} {reports : List Report}
    (h : Reports l source tree done reports) {p : Path} (hp : p ∈ done) :
    ¬ ∃ failure, Ends l source tree p failure := by
  rintro ⟨failure, hends⟩
  obtain ⟨r, hr⟩ := h.exists_report hp
  obtain ⟨home, times, hhome, -, hdeserves⟩ := h.deserves hr
  cases hends with
  | unresolved hplace => rw [hhome] at hplace; exact nomatch hplace
  | unreadable hplace heligible hcause =>
      rw [hhome, Except.ok.injEq] at hplace
      subst hplace
      obtain ⟨t, ht⟩ := hdeserves.exists_text heligible
      rw [ht] at hcause
      exact nomatch hcause
  | unwritable hplace heligible hread hsucceeds hdiffers hrefusal =>
      have hvisits := visits_pos_iff.mpr ⟨p, hp, hplace⟩
      exact fixedText_ne_iff.mpr ⟨_, hsucceeds, hdiffers⟩
        (h.fixedText_eq hvisits heligible hread hrefusal)

theorem EndsBefore.exists_ends {p : Path} {later : List Path} {failure : Option Failure}
    (h : EndsBefore l source tree (p :: later) failure) : ∃ f, Ends l source tree p f := by
  obtain ⟨f, -, hends⟩ := h
  exact ⟨f, hends⟩

/-! ### One path after the other -/

namespace Account

variable {paths done rest : List Path} {reports : List Report} {after : FileTree}

/-- The first tree is one in which nothing was done yet. -/
theorem start : Account l source tree [] [] tree where
  reports := .none
  here := rfl
  refusal := rfl
  untouched _ _ := rfl
  contents _ _ h := absurd h (Nat.lt_irrefl 0)

/-- A place that a path leads to. -/
theorem reached (hhere : Reached tree tree.workingDirectory) {place : Location}
    (h : 0 < visits tree place done) : Reached tree place := by
  obtain ⟨p, -, hp⟩ := visits_pos_iff.mp h
  exact FileTree.reached_of_destination hhere hp

/-- Nothing but the contents of files has changed. -/
theorem sameShape (h : Account l source tree done reports after)
    (hhere : Reached tree tree.workingDirectory) : FileTree.SameShape after tree where
  here := h.here
  node place := by
    by_cases hsame : visits tree place done = 0 ∨ eligibleAt source tree place = false
    · rw [h.untouched place hsame]
    · rw [not_or, Bool.not_eq_false, ← ne_eq, ← Nat.pos_iff_ne_zero] at hsame
      obtain ⟨t, hread⟩ := h.reports.exists_text hsame.1 hsame.2
      have hne := FileTree.ne_nil_of_readText_path hread
      have hfile := ((FileTree.readText_path_eq_ok_iff hne (reached hhere hsame.1)).mp hread).2
      rw [h.contents place t hsame.1 hsame.2 hread, hfile]
      rfl
  refusal := h.refusal

/-- A file that is no file to fix is read as before. -/
theorem read_eq (h : Account l source tree done reports after)
    (hhere : Reached tree tree.workingDirectory) {path : Path}
    (hother : ∀ p ∈ done, ∀ place, tree.destination p = .ok place → tree.locate path ≠ .ok place) :
    after.read path = tree.read path := by
  have hshape := h.sameShape hhere
  refine hshape.read_eq fun place hplace => h.untouched place (.inl ?_)
  rw [hshape.locate_eq] at hplace
  by_contra hvisits
  obtain ⟨p, hp, hdestination⟩ := visits_pos_iff.mp (Nat.pos_of_ne_zero hvisits)
  exact hother p hp place hdestination hplace

/-- The settings are as before. -/
theorem snapshot_eq (h : Account l source tree done reports after)
    (hhere : Reached tree tree.workingDirectory) (hapart : Apart source tree paths)
    (hdone : done ⊆ paths) : source.snapshot after = source.snapshot tree := by
  cases source with
  | fixed settings => rfl
  | file path =>
      have hread := h.read_eq hhere fun p hp => hapart.settings path rfl p (hdone hp)
      have hload : Settings.Source.load after (.file path) = Settings.Source.load tree (.file path) := by
        simp only [Settings.Source.load, (h.sameShape hhere).contains_eq, FileTree.readText, hread]
      rw [Settings.Source.snapshot, Settings.Source.snapshot, hload]

/-- The project of a file to fix is as before. -/
theorem sameProject (h : Account l source tree done reports after)
    (hhere : Reached tree tree.workingDirectory) (hapart : Apart source tree paths)
    (hdone : done ⊆ paths) {q : Path} (hq : q ∈ paths) {home : Location}
    (hhome : tree.destination q = .ok home) : Manifest.SameProject after tree home.path where
  root := by
    simp only [Manifest.root?, (h.sameShape hhere).isFile_eq]
  bytes dir hdir :=
    h.read_eq hhere fun p hp =>
      hapart.manifests q hq home hhome dir (List.mem_of_find?_eq_some hdir) p (hdone hp)

/-- So a file to fix is treated as before. -/
theorem treatment_eq (h : Account l source tree done reports after)
    (hhere : Reached tree tree.workingDirectory) (hapart : Apart source tree paths)
    (hdone : done ⊆ paths) {q : Path} (hq : q ∈ paths) {home : Location}
    (hhome : tree.destination q = .ok home) :
    eligibleAt source after home = eligibleAt source tree home ∧
      transformAt l source after home = transformAt l source tree home := by
  have hsettings := h.snapshot_eq hhere hapart hdone
  have hproject := h.sameProject hhere hapart hdone hq hhome
  have hstyle : styleAt source after home = styleAt source tree home := by
    rw [styleAt, styleAt, hsettings, hproject.resolve_eq]
  constructor
  · rw [eligibleAt, eligibleAt, hsettings, hstyle, hproject.isEligible_eq]
  · funext t
    rw [transformAt, transformAt, hsettings, hstyle]

theorem fixedText_eq (h : Account l source tree done reports after)
    (hhere : Reached tree tree.workingDirectory) (hapart : Apart source tree paths)
    (hdone : done ⊆ paths) {q : Path} (hq : q ∈ paths) {home : Location}
    (hhome : tree.destination q = .ok home) :
    fixedText l source after home = fixedText l source tree home := by
  obtain ⟨-, htransform⟩ := h.treatment_eq (l := l) hhere hapart hdone hq hhome
  funext t
  rw [fixedText, fixedText, htransform]

theorem readText_eq_error (h : Account l source tree done reports after)
    (hhere : Reached tree tree.workingDirectory) {place : Location} (hreached : Reached tree place)
    (heligible : eligibleAt source tree place = true) {cause : FileError}
    (hread : tree.readText place.path = .error cause) :
    after.readText place.path = .error cause := by
  -- No path led there, or the file could be read.
  have hvisits : visits tree place done = 0 := by
    by_contra hvisits
    obtain ⟨t, ht⟩ := h.reports.exists_text (Nat.pos_of_ne_zero hvisits) heligible
    rw [hread] at ht
    exact nomatch ht
  have hsame : after.read place.path = tree.read place.path := by
    refine h.read_eq hhere fun p hp other hother hlocate => ?_
    rw [FileTree.eq_of_locate_path hreached hlocate] at hother
    exact absurd (visits_pos_iff.mpr ⟨p, hp, hother⟩) (Nat.not_lt.mpr (Nat.le_of_eq hvisits))
  rw [FileTree.readText, hsame]
  exact hread

theorem readText_eq_ok (h : Account l source tree done reports after)
    (hhere : Reached tree tree.workingDirectory) {place : Location} (hreached : Reached tree place)
    (heligible : eligibleAt source tree place = true) {t : Text}
    (hread : tree.readText place.path = .ok t) :
    after.readText place.path =
      .ok ((fixedText l source tree place)^[visits tree place done] t) := by
  have hne := FileTree.ne_nil_of_readText_path hread
  obtain ⟨hshort, hfile⟩ := (FileTree.readText_path_eq_ok_iff hne hreached).mp hread
  have hreached' := (h.sameShape hhere).reached hreached
  refine (FileTree.readText_path_eq_ok_iff hne hreached').mpr ⟨hshort, ?_⟩
  by_cases hvisits : visits tree place done = 0
  · rw [h.untouched place (.inl hvisits), hvisits, hfile]
    rfl
  · exact h.contents place t (Nat.pos_of_ne_zero hvisits) heligible hread

/-- One more path is done, if it changes the file that it leads to as it should and no other. -/
theorem visit (h : Account l source tree done reports after) {p : Path} {place : Location}
    (hplace : tree.destination p = .ok place) {verdict : Verdict}
    (hverdict : Deserves l source tree place (visits tree place done) verdict) {next : FileTree}
    (hhere : next.workingDirectory = after.workingDirectory)
    (hrefusal : next.refusal? = after.refusal?)
    (hothers : ∀ other, other ≠ place ∨ eligibleAt source tree place = false →
      next.node? other = after.node? other)
    (hfixed : ∀ t, eligibleAt source tree place = true → tree.readText place.path = .ok t →
      next.node? place =
        some (.file ((fixedText l source tree place)^[visits tree place done + 1] t).toUtf8)) :
    Account l source tree (done ++ [p]) (reports ++ [⟨verdict, place.path⟩]) next where
  reports := h.reports.next hplace hverdict
  here := hhere.trans h.here
  refusal := hrefusal.trans h.refusal
  untouched other hother := by
    by_cases hne : other = place
    · subst hne
      rw [visits_append_of_eq hplace] at hother
      have hineligible := hother.resolve_left (Nat.succ_ne_zero _)
      rw [hothers other (.inr hineligible), h.untouched other (.inr hineligible)]
    · rw [visits_append_of_ne hplace hne] at hother
      rw [hothers other (.inl hne), h.untouched other hother]
  contents other t hvisits heligible hread := by
    by_cases hne : other = place
    · subst hne
      rw [visits_append_of_eq hplace]
      exact hfixed t heligible hread
    · rw [visits_append_of_ne hplace hne] at hvisits ⊢
      rw [hothers other (.inl hne), h.contents other t hvisits heligible hread]

/-- One more path: it ends the run, or there is an account of it too. -/
theorem step (h : Account l source tree done reports after)
    (hhere : Reached tree tree.workingDirectory) (hapart : Apart source tree paths) {p : Path}
    (hdone : done ⊆ paths) (hp : p ∈ paths) :
    (∃ failure, Id.run (file source (fun _ => l) after p) = .error failure ∧
        Ends l source tree p failure) ∨
      ∃ report next, Id.run (file source (fun _ => l) after p) = .ok (report, next) ∧
        Account l source tree (done ++ [p]) (reports ++ [report]) next := by
  have hshape := h.sameShape hhere
  have hhere' : Reached after after.workingDirectory := by
    rw [h.here]
    exact hshape.reached hhere
  rw [file_eq hhere', hshape.destination_eq]
  cases hplace : tree.destination p with
  | error cause => exact .inl ⟨_, rfl, .unresolved hplace⟩
  | ok place =>
      have hreached := FileTree.reached_of_destination hhere hplace
      obtain ⟨heligible, -⟩ := h.treatment_eq (l := l) hhere hapart hdone hp hplace
      simp only [heligible, h.fixedText_eq hhere hapart hdone hp hplace]
      cases hfile : eligibleAt source tree place with
      | false =>
          refine .inr ⟨_, _, if_pos rfl, h.visit hplace (.skipped hfile) rfl rfl (fun _ _ => rfl) ?_⟩
          intro t heligible
          exact absurd (hfile.symm.trans heligible) Bool.false_ne_true
      | true =>
          rw [if_neg Bool.true_eq_false_eq_False]
          cases hread : tree.readText place.path with
          | error cause =>
              rw [h.readText_eq_error hhere hreached hfile hread]
              exact .inl ⟨_, rfl, .unreadable hplace hfile hread⟩
          | ok t =>
              -- The file holds its first text, fixed once for each path that has led here so far.
              have hnow := h.readText_eq_ok hhere hreached hfile hread
              have hstep := Function.iterate_succ_apply' (fixedText l source tree place)
                (visits tree place done) t
              have htext : ∀ t', tree.readText place.path = .ok t' → t' = t := fun t' ht' =>
                Except.ok.inj (ht'.symm.trans hread)
              rw [hnow]
              by_cases hsame : fixedText l source tree place
                  ((fixedText l source tree place)^[visits tree place done] t) =
                  (fixedText l source tree place)^[visits tree place done] t
              · refine .inr ⟨_, _, if_pos hsame,
                  h.visit hplace (.unchanged hfile hread hsame) rfl rfl (fun _ _ => rfl) ?_⟩
                intro t' _ ht'
                have hne := FileTree.ne_nil_of_readText_path hread
                rw [htext t' ht', hstep, hsame]
                exact ((FileTree.readText_path_eq_ok_iff hne (hshape.reached hreached)).mp hnow).2
              · simp only [if_neg hsame, h.refusal]
                cases hrefusal : tree.refusal? place with
                | some cause =>
                    obtain ⟨t', hsucceeds, hdiffers⟩ :=
                      fixedText_ne_iff.mp (fixedText_ne_of_iterate hsame)
                    exact .inl ⟨_, rfl, .unwritable hplace hfile hread hsucceeds hdiffers hrefusal⟩
                | none =>
                    obtain ⟨t', hsucceeds, hdiffers⟩ := fixedText_ne_iff.mp hsame
                    refine .inr ⟨_, _, rfl,
                      h.visit hplace (.fixed hfile hread hsucceeds hdiffers hrefusal) rfl rfl ?_ ?_⟩
                    · rintro other (hne | hineligible)
                      · exact FileTree.node?_put_of_ne after _ hne
                      · exact absurd (hineligible.symm.trans hfile) Bool.false_ne_true
                    · intro t' _ ht'
                      rw [htext t' ht', hstep, FileTree.node?_put_self]

/-- A run from there on: there is an account of the paths up to one that ends the run, if one does. -/
theorem run (h : Account l source tree done reports after)
    (hhere : Reached tree tree.workingDirectory) (hapart : Apart source tree paths)
    (hdone : done ⊆ paths) (hrest : rest ⊆ paths) :
    ∃ now later, rest = now ++ later ∧
      Account l source tree (done ++ now) (reports ++ (runAll l source after rest).reports)
        (runAll l source after rest).tree ∧
      EndsBefore l source tree later (runAll l source after rest).failure := by
  induction rest generalizing done reports after with
  | nil =>
      refine ⟨[], [], rfl, ?_, rfl⟩
      rwa [runAll_nil, List.append_nil, List.append_nil]
  | cons p rest ih =>
      have hp : p ∈ paths := hrest List.mem_cons_self
      rcases h.step hhere hapart hdone hp with ⟨failure, hfile, hends⟩ | ⟨report, next, hfile, hnext⟩
      · refine ⟨[], p :: rest, rfl, ?_, failure, ?_, hends⟩
        · rwa [runAll_cons_error hfile, List.append_nil, List.append_nil]
        · rw [runAll_cons_error hfile]
      · have hdone' : done ++ [p] ⊆ paths := by
          refine List.append_subset.mpr ⟨hdone, fun q hq => ?_⟩
          rwa [List.mem_singleton.mp hq]
        obtain ⟨now, later, hsplit, haccount, hend⟩ :=
          ih hnext hdone' fun q hq => hrest (List.mem_cons_of_mem p hq)
        refine ⟨p :: now, later, by rw [hsplit, List.cons_append], ?_, ?_⟩
        · rw [List.append_assoc, List.append_assoc, List.singleton_append, List.singleton_append]
            at haccount
          rw [runAll_cons_ok hfile]
          exact haccount
        · rwa [runAll_cons_ok hfile]

end Account

end Restyle.CommandLine.Fix
