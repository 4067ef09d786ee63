import Restyle.Proofs.CommandLine.Account

/-!
# Fixing Files in Any Order, and Again

What follows from the account of a run for other runs on the same paths.

The account tells what a file holds at the end by how often it was fixed, and not by when. So paths in
another order leave the same files, if the run comes past all of them. A run that starts where another
has ended comes past the same paths, since what ends a run is the same in both trees, and its account is
told by the tree in between. There a file that the pipeline would keep holds the text it keeps.

## Theorems

* `Account.tree_eq`: Files that are fixed equally often end up the same.
* `Account.ends_before`, `Account.ends_again`: What ends a run, before and after another run.
* `Account.again_done`: A second run comes past the same paths.
* `Account.again_unchanged`: It leaves a file alone that the pipeline keeps.
* `files_account`: Fixing files changes what it should and nothing else.
-/

namespace Restyle.CommandLine.Fix

open FileTree (Reached)

variable {l : Libraries Id} {source : Settings.Source} {tree : FileTree}

namespace Account

variable {paths done : List Path} {reports : List Report} {after : FileTree}

/-- Two runs that fix each file equally often end in the same tree. -/
theorem tree_eq {done' : List Path} {reports' : List Report} {after' : FileTree}
    (h : Account l source tree done reports after) (h' : Account l source tree done' reports' after')
    (hvisits : ∀ place, visits tree place done = visits tree place done') : after = after' := by
  have hnode : after.node? = after'.node? := by
    funext place
    by_cases hsame : visits tree place done = 0 ∨ eligibleAt source tree place = false
    · rw [h.untouched place hsame, h'.untouched place (hvisits place ▸ hsame)]
    · rw [not_or, Bool.not_eq_false, ← ne_eq, ← Nat.pos_iff_ne_zero] at hsame
      obtain ⟨t, hread⟩ := h.reports.exists_text hsame.1 hsame.2
      rw [h.contents place t hsame.1 hsame.2 hread,
        h'.contents place t (hvisits place ▸ hsame.1) hsame.2 hread, hvisits]
  have hhere : after.workingDirectory = after'.workingDirectory := h.here.trans h'.here.symm
  have hrefusal : after.refusal? = after'.refusal? := h.refusal.trans h'.refusal.symm
  cases after
  cases after'
  rw [FileTree.mk.injEq]
  exact ⟨hhere, hnode, hrefusal⟩

/-- What keeps files apart keeps them apart after a run. -/
theorem apart (h : Account l source tree done reports after)
    (hhere : Reached tree tree.workingDirectory) (hapart : Apart source tree paths) :
    Apart source after paths := by
  have hshape := h.sameShape hhere
  constructor
  · simpa only [hshape.destination_eq, hshape.locate_eq] using hapart.settings
  · simpa only [hshape.destination_eq, hshape.locate_eq] using hapart.manifests

/-- What ends a run in the tree that one has left would have ended the first. -/
theorem ends_before (h : Account l source tree done reports after)
    (hhere : Reached tree tree.workingDirectory) (hapart : Apart source tree paths)
    (hdone : done ⊆ paths) {p : Path} (hp : p ∈ paths) {failure : Failure}
    (hends : Ends l source after p failure) : ∃ failure, Ends l source tree p failure := by
  have hdestination := (h.sameShape hhere).destination_eq p
  cases hends with
  | unresolved hplace => exact ⟨_, .unresolved (hdestination ▸ hplace)⟩
  | @unreadable place cause hplace heligible hcause =>
      rw [hdestination] at hplace
      have hreached := FileTree.reached_of_destination hhere hplace
      rw [(h.treatment_eq hhere hapart hdone hp hplace (l := l)).1] at heligible
      cases hread : tree.readText place.path with
      | error cause => exact ⟨_, .unreadable hplace heligible hread⟩
      | ok t =>
          rw [h.readText_eq_ok hhere hreached heligible hread] at hcause
          exact nomatch hcause
  | @unwritable place t t' cause hplace heligible hnow hsucceeds hdiffers hrefusal =>
      rw [hdestination] at hplace
      have hreached := FileTree.reached_of_destination hhere hplace
      obtain ⟨heligible', htransform⟩ := h.treatment_eq (l := l) hhere hapart hdone hp hplace
      rw [heligible'] at heligible
      rw [htransform] at hsucceeds
      cases hread : tree.readText place.path with
      | error cause => exact ⟨_, .unreadable hplace heligible hread⟩
      | ok first =>
          -- If there is something to fix now, there was at first.
          rw [h.readText_eq_ok hhere hreached heligible hread, Except.ok.injEq] at hnow
          subst hnow
          obtain ⟨_, hsucceeds, hdiffers⟩ := fixedText_ne_iff.mp
            (fixedText_ne_of_iterate (fixedText_ne_iff.mpr ⟨t', hsucceeds, hdiffers⟩))
          exact ⟨_, .unwritable hplace heligible hread hsucceeds hdiffers (h.refusal ▸ hrefusal)⟩

/-- What ends a run ends one in the tree that it has left. -/
theorem ends_again (h : Account l source tree done reports after)
    (hhere : Reached tree tree.workingDirectory) (hapart : Apart source tree paths)
    (hdone : done ⊆ paths) {p : Path} (hp : p ∈ paths) {failure : Failure}
    (hends : Ends l source tree p failure) : Ends l source after p failure := by
  have hdestination := (h.sameShape hhere).destination_eq p
  cases hends with
  | unresolved hplace => exact .unresolved (hdestination.trans hplace)
  | unreadable hplace heligible hcause =>
      have hreached := FileTree.reached_of_destination hhere hplace
      refine .unreadable (hdestination.trans hplace) ?_
        (h.readText_eq_error hhere hreached heligible hcause)
      rwa [(h.treatment_eq hhere hapart hdone hp hplace (l := l)).1]
  | @unwritable place t t' cause hplace heligible hread hsucceeds hdiffers hrefusal =>
      have hreached := FileTree.reached_of_destination hhere hplace
      obtain ⟨heligible', htransform⟩ := h.treatment_eq (l := l) hhere hapart hdone hp hplace
      -- No path led there, or there would be nothing to fix.
      have hvisits : visits tree place done = 0 := by
        by_contra hvisits
        exact fixedText_ne_iff.mpr ⟨t', hsucceeds, hdiffers⟩
          (h.reports.fixedText_eq (Nat.pos_of_ne_zero hvisits) heligible hread hrefusal)
      have hnow := h.readText_eq_ok hhere hreached heligible hread
      rw [hvisits] at hnow
      exact .unwritable (hdestination.trans hplace) (heligible'.trans heligible) hnow
        (htransform ▸ hsucceeds) hdiffers (h.refusal.symm ▸ hrefusal)

/-- A second run comes past the same paths. -/
theorem again_done (h : Account l source tree done reports after)
    (hhere : Reached tree tree.workingDirectory) (hapart : Apart source tree paths)
    {later done' later' : List Path} {reports' : List Report} {after' : FileTree}
    {failure failure' : Option Failure}
    (hpaths : paths = done ++ later) (hend : EndsBefore l source tree later failure)
    (h' : Account l source after done' reports' after')
    (hpaths' : paths = done' ++ later') (hend' : EndsBefore l source after later' failure') :
    done' = done := by
  have hdone : done ⊆ paths := hpaths ▸ List.subset_append_left done later
  -- What one of the two comes past and the other does not would start with a path that ends it.
  rcases List.append_eq_append_iff.mp (hpaths'.symm.trans hpaths) with
    ⟨more, hmore, hlater⟩ | ⟨more, hmore, hlater⟩
  · cases more with
    | nil => rw [hmore, List.append_nil]
    | cons p more =>
        have hp : p ∈ done := hmore ▸ List.mem_append_right done' List.mem_cons_self
        rw [hlater] at hend'
        obtain ⟨failure, hends⟩ := hend'.exists_ends
        exact absurd (h.ends_before hhere hapart hdone (hdone hp) hends) (h.reports.not_ends hp)
  · cases more with
    | nil => rw [hmore, List.append_nil]
    | cons p more =>
        have hp : p ∈ done' := hmore ▸ List.mem_append_right done List.mem_cons_self
        have hmem : p ∈ paths := hpaths' ▸ List.mem_append_left later' hp
        rw [hlater] at hend
        obtain ⟨failure, hends⟩ := hend.exists_ends
        exact absurd ⟨_, h.ends_again hhere hapart hdone hmem hends⟩ (h'.reports.not_ends hp)

/-- A second run leaves a file alone that the pipeline has nothing more to do to. -/
theorem again_unchanged (h : Account l source tree done reports after)
    (hhere : Reached tree tree.workingDirectory) (hapart : Apart source tree paths)
    (hdone : done ⊆ paths) {reports' : List Report} {after' : FileTree}
    (h' : Account l source after done reports' after') {p : Path} (hp : p ∈ done) {place : Location}
    (hplace : tree.destination p = .ok place) (heligible : eligibleAt source tree place = true)
    {t t' : Text} (hread : tree.readText place.path = .ok t)
    (hfix : transformAt l source tree place t = .ok t')
    (hstable : transformAt l source tree place t' = .ok t') :
    after'.node? place = after.node? place ∧
      ∀ r, (p, r) ∈ done.zip reports' → r = ⟨.unchanged, place.path⟩ := by
  have hreached := FileTree.reached_of_destination hhere hplace
  obtain ⟨heligible', htransform⟩ := h.treatment_eq (l := l) hhere hapart hdone (hdone hp) hplace
  have hfixed := h.fixedText_eq hhere hapart hdone (hdone hp) hplace
  have hfirst : fixedText l source tree place t = t' := by
    rw [fixedText, hfix]
    rfl
  have hlater : ∀ n, (fixedText l source tree place)^[n] t' = t' := by
    refine Function.iterate_fixed ?_
    rw [fixedText, hstable]
    rfl
  have hvisits : 0 < visits tree place done := visits_pos_iff.mpr ⟨p, hp, hplace⟩
  have hplace' : after.destination p = .ok place := by
    rwa [(h.sameShape hhere).destination_eq]
  -- After the first run the file holds the text that the pipeline keeps.
  have hnow : (fixedText l source tree place)^[visits tree place done] t = t' := by
    obtain ⟨n, hn⟩ := Nat.exists_eq_add_of_lt hvisits
    rw [Nat.zero_add] at hn
    rw [hn, Function.iterate_succ_apply, hfirst, hlater]
  have hread' := h.readText_eq_ok hhere hreached heligible hread
  rw [hnow] at hread'
  constructor
  · have hvisits' : 0 < visits after place done := visits_pos_iff.mpr ⟨p, hp, hplace'⟩
    rw [h'.contents place t' hvisits' (heligible'.trans heligible) hread',
      h.contents place t hvisits heligible hread, hfixed, hlater, hnow]
  · intro r hr
    obtain ⟨home, times, hhome, hpath, hdeserves⟩ := h'.reports.deserves hr
    rw [hplace', Except.ok.injEq] at hhome
    subst hhome
    obtain ⟨verdict, path⟩ := r
    cases hdeserves with
    | skipped hineligible =>
        rw [heligible', heligible] at hineligible
        exact absurd hineligible.symm Bool.false_ne_true
    | fixed _ hagain hsucceeds hdiffers _ =>
        obtain rfl := Except.ok.inj (hagain.symm.trans hread')
        rw [hfixed, hlater, htransform, hstable, Except.ok.injEq] at hsucceeds
        rw [hfixed, hlater] at hdiffers
        exact absurd hsucceeds.symm hdiffers
    | unchanged _ _ _ => exact congrArg _ hpath

end Account

theorem Apart.mono {paths other : List Path} (h : Apart source tree paths) (hsubset : other ⊆ paths) :
    Apart source tree other where
  settings settingsPath hsource p hp := h.settings settingsPath hsource p (hsubset hp)
  manifests q hq home hhome dir hdir p hp :=
    h.manifests q (hsubset hq) home hhome dir hdir p (hsubset hp)

/-- If no path ends it, a run comes past all of them. -/
theorem account_of_not_ends {paths : List Path} (hhere : Reached tree tree.workingDirectory)
    (hapart : Apart source tree paths)
    (hpast : ∀ p ∈ paths, ¬ ∃ failure, Ends l source tree p failure) :
    Account l source tree paths (runAll l source tree paths).reports
      (runAll l source tree paths).tree := by
  obtain ⟨done, later, hpaths, haccount, hend⟩ :=
    Account.start.run (l := l) hhere hapart (List.nil_subset paths) (List.Subset.refl paths)
  simp only [List.nil_append] at haccount
  cases later with
  | nil =>
      rw [List.append_nil] at hpaths
      rwa [← hpaths] at haccount
  | cons p later =>
      have hp : p ∈ paths := hpaths ▸ List.mem_append_right done List.mem_cons_self
      exact absurd hend.exists_ends (hpast p hp)

/-- A path does not end a run if its file can be read, and written where there is something to fix. -/
theorem not_ends {p : Path} {place : Location} {t : Text} (hplace : tree.destination p = .ok place)
    (hread : tree.readText place.path = .ok t)
    (hwritable : eligibleAt source tree place = true →
      (∃ t', transformAt l source tree place t = .ok t' ∧ t' ≠ t) → tree.refusal? place = none) :
    ¬ ∃ failure, Ends l source tree p failure := by
  rintro ⟨failure, hends⟩
  cases hends with
  | unresolved hcause => rw [hplace] at hcause; exact nomatch hcause
  | unreadable hother _ hcause =>
      rw [hplace, Except.ok.injEq] at hother
      rw [← hother, hread] at hcause
      exact nomatch hcause
  | unwritable hother heligible hagain hsucceeds hdiffers hrefusal =>
      rw [hplace, Except.ok.injEq] at hother
      subst hother
      obtain rfl := Except.ok.inj (hread.symm.trans hagain)
      rw [hwritable heligible ⟨_, hsucceeds, hdiffers⟩] at hrefusal
      exact nomatch hrefusal

/-- Fixing files changes what it should and nothing else. The run comes past the paths up to the first
    that cannot be resolved, or whose file is eligible and cannot be read, or cannot be written though
    there is something to fix in it. It fails if there is such a path, for that reason. For the paths
    before it there is an account: each has the report that its file deserves at that point, an eligible
    file is fixed once for each path that leads to it, and everything else is left alone. A second run
    comes past the same paths, and leaves an eligible file alone that the pipeline keeps once it was fixed.
    If every path leads to a file that can be read, and be written if there is something to fix in it, the
    order of the paths makes no difference to the files. -/
theorem files_account (l : Libraries Id) (source : Settings.Source) {tree : FileTree}
    {paths : List Path} (hhere : Reached tree tree.workingDirectory)
    (hapart : Apart source tree paths) :
    (∃ done later, paths = done ++ later ∧
      Account l source tree done (runAll l source tree paths).reports
        (runAll l source tree paths).tree ∧
      EndsBefore l source tree later (runAll l source tree paths).failure ∧
      done.length =
        (runAll l source (runAll l source tree paths).tree paths).reports.length ∧
      ∀ p ∈ done, ∀ place, tree.destination p = .ok place → eligibleAt source tree place = true →
        ∀ t t', tree.readText place.path = .ok t → transformAt l source tree place t = .ok t' →
          transformAt l source tree place t' = .ok t' →
          (runAll l source (runAll l source tree paths).tree paths).tree.node? place =
              (runAll l source tree paths).tree.node? place ∧
            ∀ r, (p, r) ∈
                done.zip (runAll l source (runAll l source tree paths).tree paths).reports →
              r = ⟨.unchanged, place.path⟩) ∧
    ((∀ p ∈ paths, ∃ place t, tree.destination p = .ok place ∧ tree.readText place.path = .ok t ∧
        (eligibleAt source tree place = true →
          (∃ t', transformAt l source tree place t = .ok t' ∧ t' ≠ t) →
          tree.refusal? place = none)) →
      ∀ other, other.Perm paths →
        (runAll l source tree other).tree = (runAll l source tree paths).tree) := by
  obtain ⟨done, later, hpaths, haccount, hend⟩ :=
    Account.start.run (l := l) hhere hapart (List.nil_subset paths) (List.Subset.refl paths)
  simp only [List.nil_append] at haccount
  refine ⟨⟨done, later, hpaths, haccount, hend, ?_⟩, fun hmanageable other hperm => ?_⟩
  · have hdone : done ⊆ paths := hpaths ▸ List.subset_append_left done later
    have hshape := haccount.sameShape hhere
    have hhere' : Reached (runAll l source tree paths).tree
        (runAll l source tree paths).tree.workingDirectory := by
      rw [haccount.here]
      exact hshape.reached hhere
    obtain ⟨done', later', hpaths', haccount', hend'⟩ :=
      Account.start.run (l := l) hhere' (haccount.apart hhere hapart) (List.nil_subset paths)
        (List.Subset.refl paths)
    simp only [List.nil_append] at haccount'
    obtain rfl := haccount.again_done hhere hapart hpaths hend haccount' hpaths' hend'
    refine ⟨haccount'.reports.length_eq, ?_⟩
    intro p hp place hplace heligible t t' hread hfix hstable
    exact haccount.again_unchanged hhere hapart hdone haccount' hp hplace heligible hread hfix hstable
  · have hpast : ∀ p ∈ paths, ¬ ∃ failure, Ends l source tree p failure := by
      intro p hp
      obtain ⟨place, t, hplace, hread, hwritable⟩ := hmanageable p hp
      exact not_ends hplace hread hwritable
    have haccount := account_of_not_ends hhere hapart hpast
    have haccount' := account_of_not_ends hhere (hapart.mono hperm.subset)
      fun p hp => hpast p (hperm.subset hp)
    exact haccount'.tree_eq haccount fun place => hperm.countP_eq _

/-- A directory with settings, scripts, a link to one of them, and a file that is no script. The last two
    of the scripts may only be read, and in one of these there is something to fix. -/
def workshop : FileTree :=
  { Survey.tree ["w".toList]
      [([], .directory), (["w".toList], .directory),
        (["w".toList, "settings".toList], .file (Text.toUtf8 "\x7b\"usePrettier\":false\x7d".toList)),
        (["w".toList, "a.js".toList], .file (Text.toUtf8 "a;".toList)),
        (["w".toList, "b.js".toList], .file (Text.toUtf8 "b;;".toList)),
        (["w".toList, "c.js".toList], .file (Text.toUtf8 "c".toList)),
        (["w".toList, "d.js".toList], .file (Text.toUtf8 "d;".toList)),
        (["w".toList, "l.js".toList], .link ⟨"a.js".toList⟩),
        (["w".toList, "notes".toList], .file (Text.toUtf8 "n".toList))] with
    refusal? := fun place =>
      if place = ["w".toList, "c.js".toList] ∨ place = ["w".toList, "d.js".toList] then
        some .permissionDenied
      else none }

def workshopSettings : Settings.Source :=
  .file ⟨"settings".toList⟩

/-- The places of the files in the workshop that are no settings. -/
def workshopPlaces : List Location :=
  [["w".toList, "a.js".toList], ["w".toList, "b.js".toList], ["w".toList, "c.js".toList],
    ["w".toList, "d.js".toList], ["w".toList, "notes".toList]]

/-- A fixer that takes all semicolons out. -/
def withoutSemicolons : Libraries Id :=
  ⟨fun _ _ _ => .error (.library []), fun _ t _ => .ok ⟨[⟨some (t.filter (· ≠ ';'))⟩]⟩⟩

theorem reached_workshop : Reached workshop workshop.workingDirectory :=
  .name .root rfl ⟨by decide, by decide, by decide, by decide⟩ fun _ => nofun

/-- Paths to these files are apart from the settings, and there is no manifest. -/
theorem apart_workshop {paths : List Path}
    (hplaces : ∀ p ∈ paths, ∃ place ∈ workshopPlaces, workshop.destination p = .ok place) :
    Apart workshopSettings workshop paths := by
  have hplace : ∀ p ∈ paths, ∀ place, workshop.destination p = .ok place →
      place ∈ workshopPlaces := by
    intro p hp place hplace
    obtain ⟨other, hmem, hother⟩ := hplaces p hp
    rwa [← Except.ok.inj (hother.symm.trans hplace)]
  constructor
  · rintro settingsPath hsource p hp place h
    rcases Settings.Source.file.inj hsource with rfl
    have hsettings : ∀ place ∈ workshopPlaces,
        workshop.locate ⟨"settings".toList⟩ ≠ .ok place := by decide +kernel
    exact hsettings place (hplace p hp place h)
  · intro q hq home hhome dir hdir p hp place h
    have hmanifest : ∀ home ∈ workshopPlaces, ∀ dir ∈ (Location.path home).ancestors,
        ∀ place ∈ workshopPlaces, workshop.locate (Manifest.inDirectory dir) ≠ .ok place := by
      decide +kernel
    exact hmanifest home (hplace q hq home hhome) dir hdir place (hplace p hp place h)

/-- The first and the third lead to the same script. In the last there is nothing to fix. -/
def workshopPaths : List Path :=
  [⟨"l.js".toList⟩, ⟨"b.js".toList⟩, ⟨"/w/./a.js".toList⟩, ⟨"c.js".toList⟩]

theorem files_account_workshop :
    Reached workshop workshop.workingDirectory ∧
      Apart workshopSettings workshop workshopPaths ∧
      (∃ done later, workshopPaths = done ++ later ∧
        Account withoutSemicolons workshopSettings workshop done
          (runAll withoutSemicolons workshopSettings workshop workshopPaths).reports
          (runAll withoutSemicolons workshopSettings workshop workshopPaths).tree ∧
        EndsBefore withoutSemicolons workshopSettings workshop later
          (runAll withoutSemicolons workshopSettings workshop workshopPaths).failure ∧
        (⟨"l.js".toList⟩ ∈ done → ∀ r, (⟨"l.js".toList⟩, r) ∈
            done.zip (runAll withoutSemicolons workshopSettings
              (runAll withoutSemicolons workshopSettings workshop workshopPaths).tree
              workshopPaths).reports →
          r = ⟨.unchanged, ⟨"/w/a.js".toList⟩⟩)) ∧
      (runAll withoutSemicolons workshopSettings workshop workshopPaths.reverse).tree =
        (runAll withoutSemicolons workshopSettings workshop workshopPaths).tree := by
  have hapart : Apart workshopSettings workshop workshopPaths :=
    apart_workshop (by decide +kernel)
  have hplaces : ∀ p ∈ workshopPaths,
      workshop.destination p = .ok ["w".toList, "a.js".toList] ∨
        workshop.destination p = .ok ["w".toList, "b.js".toList] ∨
        workshop.destination p = .ok ["w".toList, "c.js".toList] := by decide +kernel
  have hmanageable : ∀ p ∈ workshopPaths, ∃ place t, workshop.destination p = .ok place ∧
      workshop.readText place.path = .ok t ∧
      (eligibleAt workshopSettings workshop place = true →
        (∃ t', transformAt withoutSemicolons workshopSettings workshop place t = .ok t' ∧ t' ≠ t) →
        workshop.refusal? place = none) := by
    intro p hp
    rcases hplaces p hp with h | h | h
    · exact ⟨_, "a;".toList, h, by decide +kernel, fun _ _ => rfl⟩
    · exact ⟨_, "b;;".toList, h, by decide +kernel, fun _ _ => rfl⟩
    · refine ⟨_, "c".toList, h, by decide +kernel, fun _ ⟨t', hsucceeds, hdiffers⟩ => ?_⟩
      have hkept : transformAt withoutSemicolons workshopSettings workshop
          ["w".toList, "c.js".toList] "c".toList = .ok "c".toList := by decide +kernel
      exact absurd (Except.ok.inj (hsucceeds.symm.trans hkept)) hdiffers
  rcases files_account withoutSemicolons workshopSettings reached_workshop hapart with
    ⟨⟨done, later, hpaths, haccount, hend, -, hagain⟩, horder⟩
  have hlink : ⟨"l.js".toList⟩ ∈ done → ∀ r, _ → r = _ := fun hlink =>
    (hagain ⟨"l.js".toList⟩ hlink ["w".toList, "a.js".toList] (by decide +kernel) (by decide +kernel)
      "a;".toList "a".toList (by decide +kernel) (by decide +kernel) (by decide +kernel)).2
  exact ⟨reached_workshop, hapart, ⟨done, later, hpaths, haccount, hend, hlink⟩,
    horder hmanageable _ (List.reverse_perm workshopPaths)⟩

/-- The script is fixed where the link leads to it, and found fixed under its own path. The one that may
    only be read is no failure, since it is not written. -/
example :
    (runAll withoutSemicolons workshopSettings workshop workshopPaths).reports =
      [⟨.fixed, ⟨"/w/a.js".toList⟩⟩, ⟨.fixed, ⟨"/w/b.js".toList⟩⟩,
        ⟨.unchanged, ⟨"/w/a.js".toList⟩⟩, ⟨.unchanged, ⟨"/w/c.js".toList⟩⟩] := by
  decide +kernel

/-- That files can be read is not enough. A script that cannot be written, though there is something to
    fix in it, ends the run, and then the other one is fixed only if it comes first. Nor is it enough that
    the pipeline keeps a text: a file that is not eligible is skipped, whatever the pipeline makes of
    it. -/
theorem order_of_readOnly :
    Reached workshop workshop.workingDirectory ∧
      Apart workshopSettings workshop [⟨"d.js".toList⟩, ⟨"b.js".toList⟩, ⟨"notes".toList⟩] ∧
      workshop.destination ⟨"d.js".toList⟩ = .ok ["w".toList, "d.js".toList] ∧
      workshop.destination ⟨"b.js".toList⟩ = .ok ["w".toList, "b.js".toList] ∧
      workshop.readText ⟨"/w/d.js".toList⟩ = .ok "d;".toList ∧
      workshop.readText ⟨"/w/b.js".toList⟩ = .ok "b;;".toList ∧
      ¬ (∀ other : List Path, other.Perm [⟨"d.js".toList⟩, ⟨"b.js".toList⟩] →
        (runAll withoutSemicolons workshopSettings workshop other).tree =
          (runAll withoutSemicolons workshopSettings workshop
            [⟨"d.js".toList⟩, ⟨"b.js".toList⟩]).tree) ∧
      workshop.destination ⟨"notes".toList⟩ = .ok ["w".toList, "notes".toList] ∧
      workshop.readText ⟨"/w/notes".toList⟩ = .ok "n".toList ∧
      transformAt withoutSemicolons workshopSettings workshop ["w".toList, "notes".toList] "n".toList =
        .ok "n".toList ∧
      ¬ (⟨.unchanged, ⟨"/w/notes".toList⟩⟩ : Report) ∈
        (runAll withoutSemicolons workshopSettings
          (runAll withoutSemicolons workshopSettings workshop [⟨"notes".toList⟩]).tree
          [⟨"notes".toList⟩]).reports := by
  have hapart : Apart workshopSettings workshop
      [⟨"d.js".toList⟩, ⟨"b.js".toList⟩, ⟨"notes".toList⟩] := apart_workshop (by decide +kernel)
  refine ⟨reached_workshop, hapart, by decide +kernel, by decide +kernel, by decide +kernel,
    by decide +kernel, fun horder => ?_, by decide +kernel, by decide +kernel, by decide +kernel,
    by decide +kernel⟩
  -- The two orders differ in what the other script holds at the end.
  have hlast : (runAll withoutSemicolons workshopSettings workshop
      [⟨"d.js".toList⟩, ⟨"b.js".toList⟩]).tree.node? ["w".toList, "b.js".toList] =
        some (.file (Text.toUtf8 "b;;".toList)) := by decide +kernel
  have hfirst : (runAll withoutSemicolons workshopSettings workshop
      [⟨"b.js".toList⟩, ⟨"d.js".toList⟩]).tree.node? ["w".toList, "b.js".toList] =
        some (.file (Text.toUtf8 "b".toList)) := by decide +kernel
  rw [horder _ (List.Perm.swap _ _ []), hlast] at hfirst
  exact absurd hfirst (by decide)

end Restyle.CommandLine.Fix
