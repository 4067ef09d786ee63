import Mathlib.Data.List.Basic
import Restyle.Proofs.Ignore.Cuts

/-!
# Choices in Braces

What a pattern with braces stands for.

A pattern that is written from groups has a tree, and what it stands for can be read off the tree: for
each group one of its alternatives is chosen, and the choices are made from left to right. The scanner
knows no tree. It writes out one group, and then starts again on each of the shorter patterns, so the
groups of an alternative are only seen after the alternative has been put between what stood before and
behind the group.

That the two agree rests on what the scanner does with the text of a sequence. Inside an open group the
whole text goes to the alternative being read, nested groups included, and only a comma of the group
itself ends it. Outside of groups a choice that has been made is passed over for good, so nothing that
was written out is read differently afterwards. With that, a sequence may stand between any text that is
passed over and any text at all, and the induction is on the sequence.

A pattern that is written from no tree is written out in the same way, and what can be said of it is
where it is cut and that this comes to an end.

## Main definitions

* `IsPlain`: A character that stands for itself.
* `Sequence`, `Alternatives`: A pattern as a tree.
* `Sequence.write`: The pattern that is written from a tree.
* `Sequence.choices`: What it stands for.
* `Passed`: A text that the scanner passes over.

## Theorems

* `Sequence.scan_write`: Inside a group a sequence is read as a whole.
* `Alternatives.scan_write_closing`: The alternatives of a group are told apart.
* `Sequence.expand_write_between`: A sequence is written out wherever it stands.
* `Sequence.mem_expand_group`: A group behind a tree is written out by its alternatives.
* `expand_of_mem_expand`: What was written out has no group.
* `expand_choices`: A written tree stands for its choices, and every pattern is written out by cuts.
-/

namespace Restyle.Brace

/-- Whether a character stands for itself. A comma does so only outside of groups. -/
def IsPlain (inside : Bool) (c : Char) : Prop :=
  c ≠ '\\' ∧ c ≠ '\x7b' ∧ c ≠ '\x7d' ∧ (inside = true → c ≠ ',')

instance (inside : Bool) (c : Char) : Decidable (IsPlain inside c) :=
  inferInstanceAs (Decidable (_ ∧ _))

mutual

/-- Characters, escapes and groups one after the other, inside or outside of a group. -/
inductive Sequence : Bool → Type where
  | nil {inside : Bool} : Sequence inside
  | plain {inside : Bool} (c : Char) (isPlain : IsPlain inside c) (rest : Sequence inside) :
      Sequence inside
  | escaped {inside : Bool} (c : Char) (rest : Sequence inside) : Sequence inside
  | group {inside : Bool} (first : Sequence true) (others : Alternatives) (rest : Sequence inside) :
      Sequence inside

/-- The alternatives of a group behind its first. There is at least one. -/
inductive Alternatives : Type where
  | last (a : Sequence true)
  | more (a : Sequence true) (rest : Alternatives)

end

mutual

/-- The pattern that is written from a tree. -/
def Sequence.write {inside : Bool} : Sequence inside → Text
  | .nil => []
  | .plain c _ rest => c :: rest.write
  | .escaped c rest => '\\' :: c :: rest.write
  | .group first others rest => '\x7b' :: first.write ++ others.write ++ '\x7d' :: rest.write

/-- Alternatives as they are written, each behind a comma. -/
def Alternatives.write : Alternatives → Text
  | .last a => ',' :: a.write
  | .more a rest => ',' :: a.write ++ rest.write

end

/-- The texts of alternatives. -/
def Alternatives.texts : Alternatives → List Text
  | .last a => [a.write]
  | .more a rest => a.write :: rest.texts

mutual

/-- What a tree stands for: a choice for each group, of which the leftmost changes last. -/
def Sequence.choices {inside : Bool} : Sequence inside → List Text
  | .nil => [[]]
  | .plain c _ rest => rest.choices.map (c :: ·)
  | .escaped c rest => rest.choices.map ('\\' :: c :: ·)
  | .group first others rest =>
    (first.choices ++ others.choices).flatMap fun w => rest.choices.map (w ++ ·)

/-- What alternatives stand for, one after the other. -/
def Alternatives.choices : Alternatives → List Text
  | .last a => a.choices
  | .more a rest => a.choices ++ rest.choices

end

/-! ### Steps of the scanner -/

theorem scan_none_cons {c : Char} (hescape : c ≠ '\\') (hbrace : c ≠ '\x7b') (read rest : Text) :
    scan read none (c :: rest) = scan (c :: read) none rest := by
  cases rest <;> simp [scan, hescape, hbrace]

theorem scan_none_brace (read rest : Text) :
    scan read none ('\x7b' :: rest) = scan read (some {}) rest := by
  simp [scan]

theorem scan_some_plain {c : Char} (h : IsPlain true c) (read : Text) (o : Open) (rest : Text) :
    scan read (some o) (c :: rest) = scan read (some (o.push o.depth c)) rest := by
  rcases h with ⟨hescape, hopening, hclosing, hcomma⟩
  cases rest <;> simp [scan, hescape, hopening, hclosing, hcomma]

theorem scan_some_opening (read : Text) (o : Open) (rest : Text) :
    scan read (some o) ('\x7b' :: rest) = scan read (some (o.push (o.depth + 1) '\x7b')) rest := by
  simp [scan]

/-- A brace that closes a nested group belongs to the alternative. -/
theorem scan_some_closing {o : Open} (h : o.depth ≠ 0) (read rest : Text) :
    scan read (some o) ('\x7d' :: rest) = scan read (some (o.push (o.depth - 1) '\x7d')) rest := by
  simp [scan, h]

/-- A comma in a nested group belongs to the alternative. -/
theorem scan_some_comma {o : Open} (h : o.depth ≠ 0) (read rest : Text) :
    scan read (some o) (',' :: rest) = scan read (some (o.push o.depth ',')) rest := by
  simp [scan, h]

/-- A comma of the group itself ends the alternative. -/
theorem scan_some_next {o : Open} (h : o.depth = 0) (read rest : Text) :
    scan read (some o) (',' :: rest) = scan read (some o.next) rest := by
  simp [scan, h]

/-- The brace of the group itself ends it, if there was a comma. -/
theorem scan_some_group {o : Open} (hdepth : o.depth = 0) (hearlier : o.earlier ≠ [])
    (read rest : Text) :
    scan read (some o) ('\x7d' :: rest) =
      some
        { before := read.reverse
          alternatives := (o.current :: o.earlier).reverse.map List.reverse
          after := rest } := by
  simp [scan, hdepth, hearlier]

/-! ### A tree inside a group -/

/-- An open group with more of the current alternative read. -/
def Open.pushText (o : Open) (t : Text) : Open :=
  { o with current := t.reverse ++ o.current }

theorem Open.push_pushText (o : Open) (c : Char) (t : Text) :
    (o.push o.depth c).pushText t = o.pushText (c :: t) := by
  simp [pushText, push]

theorem Open.pushText_pushText (o : Open) (t u : Text) :
    (o.pushText t).pushText u = o.pushText (t ++ u) := by
  simp [pushText]

mutual

/-- Inside a group a sequence is read as a whole, whatever groups it has itself. -/
theorem Sequence.scan_write : ∀ (s : Sequence true) (read : Text) (o : Open) (rest : Text),
    scan read (some o) (s.write ++ rest) = scan read (some (o.pushText s.write)) rest
  | .nil, read, o, rest => rfl
  | .plain c h more, read, o, rest => by
      rw [Sequence.write, List.cons_append, scan_some_plain h, more.scan_write, Open.push_pushText]
  | .escaped c more, read, o, rest => by
      have hpush : ((o.push o.depth '\\').push o.depth c).pushText more.write =
          o.pushText ('\\' :: c :: more.write) := by
        simp [Open.pushText, Open.push]
      rw [Sequence.write, List.cons_append, List.cons_append, scan, more.scan_write, hpush]
  | .group first others more, read, o, rest => by
      -- The braces of the nested group raise the depth and lower it again.
      have hdepth : ∀ t, ((o.push (o.depth + 1) '\x7b').pushText t).depth ≠ 0 :=
        fun _ => Nat.succ_ne_zero o.depth
      simp only [Sequence.write, List.cons_append, List.append_assoc]
      rw [scan_some_opening, first.scan_write, others.scan_write (hdepth _),
        Open.pushText_pushText, scan_some_closing (hdepth _), more.scan_write]
      simp [Open.pushText, Open.push]

/-- Inside a nested group its commas are read like any other character. -/
theorem Alternatives.scan_write : ∀ (as : Alternatives) {o : Open} (_ : o.depth ≠ 0)
    (read rest : Text),
    scan read (some o) (as.write ++ rest) = scan read (some (o.pushText as.write)) rest
  | .last a, o, hdepth, read, rest => by
      rw [Alternatives.write, List.cons_append, scan_some_comma hdepth, a.scan_write,
        Open.push_pushText]
  | .more a as, o, hdepth, read, rest => by
      have hkept : ((o.push o.depth ',').pushText a.write).depth ≠ 0 := hdepth
      rw [Alternatives.write, List.cons_append, List.cons_append, List.append_assoc,
        scan_some_comma hdepth, a.scan_write, as.scan_write hkept, Open.pushText_pushText,
        Open.push_pushText]

end

/-- The alternatives of a group are told apart, and the group ends behind them. -/
theorem Alternatives.scan_write_closing : ∀ (as : Alternatives) {o : Open} (_ : o.depth = 0)
    (read rest : Text),
    scan read (some o) (as.write ++ '\x7d' :: rest) =
      some
        { before := read.reverse
          alternatives := (o.current :: o.earlier).reverse.map List.reverse ++ as.texts
          after := rest }
  | .last a, o, hdepth, read, rest => by
      have hkept : (o.next.pushText a.write).depth = 0 := hdepth
      have hearlier : (o.next.pushText a.write).earlier ≠ [] := List.cons_ne_nil _ _
      rw [Alternatives.write, List.cons_append, scan_some_next hdepth, a.scan_write,
        scan_some_group hkept hearlier]
      simp [Open.pushText, Open.next, Alternatives.texts]
  | .more a as, o, hdepth, read, rest => by
      have hkept : (o.next.pushText a.write).depth = 0 := hdepth
      rw [Alternatives.write, List.cons_append, List.cons_append, List.append_assoc,
        scan_some_next hdepth, a.scan_write, as.scan_write_closing hkept]
      simp [Open.pushText, Open.next, Alternatives.texts]

/-! ### A tree outside of groups -/

/-- A text that the scanner passes over where no group is open. -/
def Passed (u : Text) : Prop :=
  ∀ read rest, scan read none (u ++ rest) = scan (u.reverse ++ read) none rest

theorem Passed.nil : Passed [] :=
  fun _ _ => rfl

theorem Passed.append {u v : Text} (hu : Passed u) (hv : Passed v) : Passed (u ++ v) := by
  intro read rest
  rw [List.append_assoc, hu, hv, List.reverse_append, List.append_assoc]

theorem passed_plain {inside : Bool} {c : Char} (h : IsPlain inside c) : Passed [c] := by
  intro read rest
  exact scan_none_cons h.1 h.2.1 read rest

theorem passed_escaped (c : Char) : Passed ['\\', c] := by
  intro read rest
  exact scan.eq_2 read c rest

theorem expand_of_passed {u : Text} (h : Passed u) : expand u = [u] := by
  refine expand_of_group?_eq_none ?_
  have hscan := h [] []
  rw [List.append_nil] at hscan
  rw [group?, hscan, scan]

/-- A pattern with a group stands for what the pattern with each of its alternatives stands for. -/
theorem expand_of_group? {p : Text} {g : Group} (h : group? p = some g) :
    expand p = g.alternatives.flatMap fun a => expand (g.before ++ a ++ g.after) := by
  rw [expand]
  split
  · next hnone =>
      rw [h] at hnone
      cases hnone
  · next g' hsome =>
      rw [h] at hsome
      cases hsome
      have hattach := List.flatMap_map Subtype.val
        (fun a => expand (g.before ++ a ++ g.after)) (l := g.alternatives.attach)
      rw [← hattach, List.attach_map_subtype_val]

mutual

/-- A choice that has been made is passed over. -/
theorem Sequence.passed_of_mem_choices {inside : Bool} : ∀ (s : Sequence inside) {w : Text},
    w ∈ s.choices → Passed w
  | .nil, w, hw => by
      rw [Sequence.choices, List.mem_singleton] at hw
      rw [hw]
      exact .nil
  | .plain c h more, w, hw => by
      rw [Sequence.choices, List.mem_map] at hw
      rcases hw with ⟨u, hu, rfl⟩
      exact (passed_plain h).append (more.passed_of_mem_choices hu)
  | .escaped c more, w, hw => by
      rw [Sequence.choices, List.mem_map] at hw
      rcases hw with ⟨u, hu, rfl⟩
      exact (passed_escaped c).append (more.passed_of_mem_choices hu)
  | .group first others more, w, hw => by
      rw [Sequence.choices, List.mem_flatMap] at hw
      rcases hw with ⟨u, hu, hw⟩
      rw [List.mem_map] at hw
      rcases hw with ⟨v, hv, rfl⟩
      have hchosen : Passed u := by
        rcases List.mem_append.mp hu with hfirst | hothers
        · exact first.passed_of_mem_choices hfirst
        · exact others.passed_of_mem_choices hothers
      exact hchosen.append (more.passed_of_mem_choices hv)

theorem Alternatives.passed_of_mem_choices : ∀ (as : Alternatives) {w : Text},
    w ∈ as.choices → Passed w
  | .last a, w, hw => a.passed_of_mem_choices hw
  | .more a as, w, hw => by
      rcases List.mem_append.mp hw with hfirst | hothers
      · exact a.passed_of_mem_choices hfirst
      · exact as.passed_of_mem_choices hothers

end

/-- Behind a text that is passed over, the first group of a tree is found. -/
theorem group?_write {u : Text} (hu : Passed u) (first : Sequence true) (others : Alternatives)
    (after : Text) :
    group? (u ++ '\x7b' :: first.write ++ others.write ++ '\x7d' :: after) =
      some { before := u, alternatives := first.write :: others.texts, after } := by
  have hdepth : (Open.pushText {} first.write).depth = 0 := rfl
  rw [group?, List.append_assoc, List.append_assoc, hu, List.cons_append, scan_none_brace,
    first.scan_write, others.scan_write_closing hdepth]
  simp [Open.pushText]

mutual

/-- Between a text that is passed over and any text, a sequence is written out by its choices. -/
theorem Sequence.expand_write_between {inside : Bool} : ∀ (s : Sequence inside) {u : Text}
    (_ : Passed u) (v : Text),
    expand (u ++ s.write ++ v) = s.choices.flatMap fun w => expand (u ++ w ++ v)
  | .nil, u, hu, v => by
      rw [Sequence.write, Sequence.choices, List.flatMap_singleton]
  | .plain c h more, u, hu, v => by
      have hrest := more.expand_write_between (hu.append (passed_plain h)) v
      rw [Sequence.write, Sequence.choices, List.flatMap_map]
      simpa only [List.append_assoc, List.singleton_append] using hrest
  | .escaped c more, u, hu, v => by
      have hrest := more.expand_write_between (hu.append (passed_escaped c)) v
      rw [Sequence.write, Sequence.choices, List.flatMap_map]
      simpa only [List.append_assoc, List.cons_append, List.nil_append] using hrest
  | .group first others more, u, hu, v => by
      have hgroup : group? (u ++ (Sequence.group first others more).write ++ v) =
          some { before := u, alternatives := first.write :: others.texts, after := more.write ++ v } := by
        rw [← group?_write hu first others (more.write ++ v), Sequence.write]
        simp only [List.append_assoc, List.cons_append]
      -- A choice of the group is passed over, so what comes behind it may be written out after it.
      have hrest : ∀ w ∈ first.choices ++ others.choices,
          expand (u ++ w ++ (more.write ++ v)) =
            more.choices.flatMap fun w' => expand (u ++ (w ++ w') ++ v) := by
        intro w hw
        have hchosen : Passed w := by
          rcases List.mem_append.mp hw with hfirst | hothers
          · exact first.passed_of_mem_choices hfirst
          · exact others.passed_of_mem_choices hothers
        have hmore := more.expand_write_between (hu.append hchosen) v
        simpa only [List.append_assoc] using hmore
      calc expand (u ++ (Sequence.group first others more).write ++ v)
          = (first.write :: others.texts).flatMap fun a => expand (u ++ a ++ (more.write ++ v)) :=
            expand_of_group? hgroup
        _ = (first.choices ++ others.choices).flatMap
              fun w => expand (u ++ w ++ (more.write ++ v)) := by
            rw [List.flatMap_cons, first.expand_write_between hu, others.expand_texts_between hu,
              List.flatMap_append]
        _ = (first.choices ++ others.choices).flatMap
              fun w => more.choices.flatMap fun w' => expand (u ++ (w ++ w') ++ v) :=
            List.flatMap_congr hrest
        _ = (Sequence.group first others more).choices.flatMap fun w => expand (u ++ w ++ v) := by
            rw [Sequence.choices, List.flatMap_assoc]
            simp only [List.flatMap_map]

theorem Alternatives.expand_texts_between : ∀ (as : Alternatives) {u : Text} (_ : Passed u)
    (v : Text),
    (as.texts.flatMap fun a => expand (u ++ a ++ v)) =
      as.choices.flatMap fun w => expand (u ++ w ++ v)
  | .last a, u, hu, v => by
      rw [Alternatives.texts, List.flatMap_singleton, a.expand_write_between hu, Alternatives.choices]
  | .more a as, u, hu, v => by
      rw [Alternatives.texts, List.flatMap_cons, a.expand_write_between hu,
        as.expand_texts_between hu, Alternatives.choices, List.flatMap_append]

end

/-- A pattern that is written from a tree stands for what the tree stands for. -/
theorem Sequence.expand_write {inside : Bool} (s : Sequence inside) : expand s.write = s.choices := by
  have hbetween := s.expand_write_between .nil []
  simp only [List.nil_append, List.append_nil] at hbetween
  have hchoices : ∀ w ∈ s.choices, expand w = [w] := fun w hw =>
    expand_of_passed (s.passed_of_mem_choices hw)
  rw [hbetween, List.flatMap_congr hchoices, List.flatMap_singleton']

/-- A group behind a written tree is written out by its alternatives, one after the other, whatever
    comes behind it. -/
theorem Sequence.mem_expand_group (before : Sequence false) (first : Sequence true)
    (others : Alternatives) (after q : Text) :
    q ∈ expand (before.write ++ '\x7b' :: first.write ++ others.write ++ '\x7d' :: after) ↔
      ∃ a ∈ first.write :: others.texts, q ∈ expand (before.write ++ a ++ after) := by
  have hbefore : ∀ v, expand (before.write ++ v) = before.choices.flatMap fun w => expand (w ++ v) :=
    fun v => before.expand_write_between .nil v
  have hgroup : ∀ w ∈ before.choices,
      expand (w ++ ('\x7b' :: first.write ++ others.write ++ '\x7d' :: after)) =
        (first.write :: others.texts).flatMap fun a => expand (w ++ (a ++ after)) := by
    intro w hw
    have hfound := group?_write (before.passed_of_mem_choices hw) first others after
    simpa only [List.append_assoc] using expand_of_group? hfound
  simp only [List.append_assoc] at hgroup ⊢
  rw [hbefore, List.flatMap_congr hgroup]
  simp only [hbefore, List.mem_flatMap]
  constructor
  · rintro ⟨w, hw, a, ha, hq⟩
    exact ⟨a, ha, w, hw, hq⟩
  · rintro ⟨a, ha, w, hw, hq⟩
    exact ⟨w, hw, a, ha, hq⟩

/-- What was written out is not written out further. -/
theorem expand_of_mem_expand {p q : Text} (h : q ∈ expand p) : expand q = [q] := by
  fun_induction expand p with
  | case1 p hgroup =>
      rw [List.mem_singleton.mp h]
      exact expand_of_group?_eq_none hgroup
  | case2 p g hgroup ih =>
      rcases List.mem_flatMap.mp h with ⟨a, -, hq⟩
      exact ih a hq

/-- A pattern has no group, and its bytes are not cut, or it has one and its bytes are cut there. -/
theorem cuts?_cases (p : Text) :
    (group? p = none ∧ cuts? p.toUtf8 = none) ∨
      ∃ g c, group? p = some g ∧ cuts? p.toUtf8 = some c ∧ CutBy g c := by
  have hrel := rel_cuts? p
  generalize group? p = found at hrel ⊢
  generalize cuts? p.toUtf8 = cuts at hrel ⊢
  cases hrel with
  | none => exact .inl ⟨rfl, rfl⟩
  | some h => exact .inr ⟨_, _, rfl, rfl, h⟩

/-- A pattern is written out by cutting its bytes. -/
theorem expand_eq_cuts (p : Text) :
    expand p =
      match cuts? p.toUtf8 with
      | none => [p]
      | some c => (c.rebuilt p).flatMap expand := by
  rcases cuts?_cases p with ⟨hgroup, hcuts⟩ | ⟨g, c, hgroup, hcuts, hcut⟩
  · rw [hcuts, expand_of_group?_eq_none hgroup]
  · rw [hcuts, expand_of_group? hgroup]
    dsimp only
    rw [rebuilt_eq hgroup hcut, List.flatMap_map]

/-- A pattern that is written from a tree stands for its choices. Any other pattern is cut where its
    bytes have a group, which is only ever done between characters and gives shorter patterns, until
    there are no groups left. -/
theorem expand_choices :
    (∀ s : Sequence false, expand s.write = s.choices) ∧
    ∀ p : Text,
      (expand p =
        match cuts? p.toUtf8 with
        | none => [p]
        | some c => (c.rebuilt p).flatMap expand) ∧
      (∀ c, cuts? p.toUtf8 = some c → c.Fits p ∧ ∀ q ∈ c.rebuilt p, q.length < p.length) ∧
      ∀ q ∈ expand p, expand q = [q] := by
  refine ⟨Sequence.expand_write, fun p => ⟨expand_eq_cuts p, ?_, fun q => expand_of_mem_expand⟩⟩
  intro c hc
  rcases cuts?_cases p with ⟨-, hnone⟩ | ⟨g, c', hgroup, hcuts, hcut⟩
  · rw [hnone] at hc
    cases hc
  · rw [hcuts] at hc
    cases hc
    refine ⟨fits hgroup hcut, fun q hq => ?_⟩
    rw [rebuilt_eq hgroup hcut] at hq
    rcases List.mem_map.mp hq with ⟨a, ha, rfl⟩
    exact length_alternative_lt hgroup ha

/-- A group in a group, with characters of two bytes beside the braces and a comma that is escaped. -/
def nestedGroups : Sequence false :=
  .plain 'é' (by decide) <|
    .group (.plain 'ä' (by decide) .nil)
      (.last (.group .nil (.last (.escaped ',' .nil)) .nil))
      (.plain ',' (by decide) .nil)

theorem expand_choices_nestedGroups :
    nestedGroups.write = "é\x7bä,\x7b,\\,\x7d\x7d,".toList ∧
      expand nestedGroups.write = ["éä,".toList, "é,".toList, "é\\,,".toList] ∧
      (∃ c, cuts? nestedGroups.write.toUtf8 = some c ∧ c.offsets = [2, 5, 11] ∧
        c.Fits nestedGroups.write) ∧
      expand "é\\,,".toList = ["é\\,,".toList] := by
  rcases expand_choices with ⟨htree, hpattern⟩
  have hchoices : expand nestedGroups.write = _ := htree nestedGroups
  have hcuts : cuts? nestedGroups.write.toUtf8 = some ⟨2, [5], 11⟩ := by decide
  have hfits := ((hpattern nestedGroups.write).2.1 _ hcuts).1
  have hlast : "é\\,,".toList ∈ expand nestedGroups.write := by
    rw [hchoices]
    decide
  exact ⟨rfl, hchoices, ⟨_, hcuts, rfl, hfits⟩, (hpattern nestedGroups.write).2.2 _ hlast⟩

end Restyle.Brace
