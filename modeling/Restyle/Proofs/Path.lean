import Mathlib.Data.List.TakeWhile
import Restyle.Path
import Restyle.Proofs.Text.Segments

/-!
# Names and Ancestors of a Path

What the parts of a path are, said about its text.

A path is taken apart at its anchor first, which is a slash or a dot at the front, and the segments
behind the anchor are filtered. Where the anchor ends does not matter for the segments that name
something, because what it consists of is itself a filler or nothing. So these are the segments of the
whole text without the fillers, and everything about names can be said with `segments` alone.

With that an ancestor is a piece from the front of the text, up to a slash that is left out. What is
left out has further names, and nothing else has changed, so the components of an ancestor are the first
ones of the path. The only exceptions are at the very top, where the piece is the root or nothing.

## Main definitions

* `Path.names`: The segments of a path that name something.
* `Path.EndsIn`: The name that the text of a path ends in, but for slashes and `/.`.

## Theorems

* `components_eq`: The components are the anchor and the names.
* `exists_text_of_mem_properAncestors`: An ancestor is a piece from the front of the text.
* `exists_components_of_mem_ancestors`: Its components are the first ones of the path.
* `fileName?_eq_some_iff`: The file name is the name that the text ends in, unless that is `..`.
* `extension?_eq_some_iff`: The extension stands behind the last dot, and something in front of it.
-/

namespace Restyle

namespace Path

/-- The segments of a path that name something. -/
def names (p : Path) : List Text :=
  (p.text.segments '/').filter (!isFiller ·)

/-- A path ends in a name: it stands at the front or behind a slash, and nothing follows it but slashes
    and `/.`. -/
def EndsIn (p : Path) (name : Text) : Prop :=
  ∃ front behind, p.text = front ++ name ++ behind ∧
    (front = [] ∨ ∃ above, front = above ++ ['/']) ∧
    '/' ∉ name ∧ isFiller name = false ∧
    (behind = [] ∨ ∃ rest, behind = '/' :: rest ∧ ∀ s ∈ Text.segments '/' rest, isFiller s = true)

/-- What a path starts with, as far as the anchor can tell. -/
theorem anchor_cases (p : Path) :
    (p.anchor = ['/'] ∧ ∃ t, p.text = '/' :: t) ∨
      (p.anchor = ['.'] ∧ (p.text = ['.'] ∨ ∃ t, p.text = '.' :: '/' :: t)) ∨
      p.anchor = [] := by
  unfold anchor
  split
  · next t h => exact .inl ⟨rfl, t, h⟩
  · next h => exact .inr (.inl ⟨rfl, .inl h⟩)
  · next t h => exact .inr (.inl ⟨rfl, .inr ⟨t, h⟩⟩)
  · exact .inr (.inr rfl)

/-- The anchor is what the text starts with. -/
theorem text_eq_anchor_append (p : Path) : p.text = p.anchor ++ p.text.drop p.anchor.length := by
  rcases p.anchor_cases with ⟨ha, t, ht⟩ | ⟨ha, ht | ⟨t, ht⟩⟩ | ha
  · rw [ha, ht]; rfl
  · rw [ha, ht]; rfl
  · rw [ha, ht]; rfl
  · rw [ha]; rfl

/-- The anchor hides no name. -/
theorem filter_body (p : Path) : p.body.filter (!isFiller ·) = p.names := by
  unfold body names
  rcases p.anchor_cases with ⟨ha, t, ht⟩ | ⟨ha, ht | ⟨t, ht⟩⟩ | ha
  · rw [ha, ht, Text.segments_cons_self]
    rfl
  · rw [ha, ht]
    rfl
  · rw [ha, ht, show ('.' :: '/' :: t : Text) = ['.'] ++ '/' :: t from rfl,
      Text.segments_append_cons]
    change (Text.segments '/' ('/' :: t)).filter _ = _
    rw [Text.segments_cons_self]
    rfl
  · rw [ha]
    rfl

/-- The components of a path are its anchor, if it has one, and its names. -/
theorem components_eq (p : Path) :
    p.components = (if p.anchor = [] then [] else [p.anchor]) ++ p.names := by
  rw [components, filter_body]

/-- A slash ends what the anchor looks at, if there is something before it. -/
theorem anchor_append_cons {t : Text} (h : t ≠ []) (u : Text) :
    anchor ⟨t ++ '/' :: u⟩ = anchor ⟨t⟩ := by
  rcases t with _ | ⟨c, _ | ⟨d, t⟩⟩
  · exact absurd rfl h
  · by_cases hslash : c = '/'
    · rw [hslash]; rfl
    · by_cases hdot : c = '.'
      · rw [hdot]; rfl
      · simp [anchor, hslash, hdot]
  · by_cases hslash : c = '/'
    · rw [hslash]; rfl
    · by_cases hdot : c = '.'
      · by_cases hd : d = '/'
        · rw [hdot, hd]; rfl
        · simp [anchor, hdot, hd]
      · simp [anchor, hslash, hdot]

theorem names_append_cons (t u : Text) : names ⟨t ++ '/' :: u⟩ = names ⟨t⟩ ++ names ⟨u⟩ := by
  rw [names, Text.segments_append_cons, List.filter_append]
  rfl

/-- What is above a path stops in front of one of its segments, and of the fillers before that. -/
theorem mem_above {anchor : Text} {segments : List Text} {a : Path} (h : a ∈ above anchor segments) :
    a = ⟨[]⟩ ∨ ∃ behind segment before, segments = behind ++ segment :: before ∧
      isFiller segment = false ∧
      a = ⟨anchor ++ ['/'].intercalate (before.dropWhile isFiller).reverse⟩ := by
  induction segments with
  | nil =>
      unfold above at h
      split at h
      · exact .inl (List.mem_singleton.mp h)
      · exact absurd h List.not_mem_nil
  | cons segment before ih =>
      unfold above at h
      -- A filler is passed over. Anything else is left out next, and further paths are above that.
      split at h
      · rcases ih h with ha | ⟨behind, s, rest, rfl, hs, ha⟩
        · exact .inl ha
        · exact .inr ⟨segment :: behind, s, rest, rfl, hs, ha⟩
      · next hfiller =>
          rcases List.mem_cons.mp h with ha | h
          · exact .inr ⟨[], segment, before, rfl, Bool.eq_false_iff.mpr hfiller, ha⟩
          · rcases ih h with ha | ⟨behind, s, rest, rfl, hs, ha⟩
            · exact .inl ha
            · exact .inr ⟨segment :: behind, s, rest, rfl, hs, ha⟩

/-- Joined segments are no empty text if the last one is not. -/
theorem intercalate_ne_nil {kept : List Text} {s : Text} (hs : s ≠ []) :
    ['/'].intercalate (kept ++ [s]) ≠ [] := by
  cases kept with
  | nil => rwa [List.nil_append, List.intercalate_singleton]
  | cons k kept =>
      rw [Text.intercalate_append_of_ne_nil (List.cons_ne_nil _ _) (List.cons_ne_nil _ _)]
      exact List.append_ne_nil_of_right_ne_nil _ (List.cons_ne_nil _ _)

theorem ne_nil_of_isFiller_eq_false {s : Text} (h : isFiller s = false) : s ≠ [] := by
  rintro rfl
  exact absurd h (by decide)

/-- Everything above a path is a piece from the front of its text, up to a slash that is left out. At
    the top it is the root, or nothing. -/
theorem exists_text_of_mem_properAncestors {p a : Path} (h : a ∈ p.properAncestors) :
    a.text = [] ∨ (a.text = ['/'] ∧ p.anchor = ['/']) ∨
      a.text ≠ [] ∧ ∃ rest, p.text = a.text ++ '/' :: rest := by
  rcases mem_above h with rfl | ⟨behind, segment, before, hbody, hsegment, rfl⟩
  · exact .inl rfl
  -- The segments are those that are kept, fillers, the one that is dropped, and what is behind it.
  have hsplit : p.body = (before.dropWhile isFiller).reverse ++
      ((before.takeWhile isFiller).reverse ++ segment :: behind.reverse) := by
    have hrev := congrArg List.reverse hbody
    rw [List.reverse_reverse, List.reverse_append, List.reverse_cons] at hrev
    rw [hrev, ← List.append_assoc, ← List.reverse_append, List.takeWhile_append_dropWhile,
      List.append_assoc, List.singleton_append]
  have htext : p.text = p.anchor ++ ['/'].intercalate p.body := by
    rw [body, Text.intercalate_segments]
    exact p.text_eq_anchor_append
  cases hkept : before.dropWhile isFiller with
  | nil =>
      -- Nothing is kept behind the anchor.
      rw [List.reverse_nil, List.intercalate_nil, List.append_nil]
      rcases p.anchor_cases with ⟨ha, -⟩ | ⟨ha, ht | ⟨t, ht⟩⟩ | ha
      · exact .inr (.inl ⟨ha, ha⟩)
      · -- A path that is a dot has no segment that could be dropped.
        have hdot : p.body = [[]] := by
          rw [body, ha, ht]
          rfl
        have hmem : segment ∈ p.body := by
          rw [hsplit]
          exact List.mem_append_right _ (List.mem_append_right _ List.mem_cons_self)
        rw [hdot, List.mem_singleton] at hmem
        exact absurd hmem (ne_nil_of_isFiller_eq_false hsegment)
      · exact .inr (.inr ⟨by rw [ha]; exact List.cons_ne_nil _ _, t, by rw [ha, ht]; rfl⟩)
      · exact .inl ha
  | cons s kept =>
      have hs : isFiller s = false := by
        have := List.head?_dropWhile_not isFiller before
        rw [hkept] at this
        simpa using this
      have hjoined : ['/'].intercalate (kept.reverse ++ [s]) ≠ [] :=
        intercalate_ne_nil (ne_nil_of_isFiller_eq_false hs)
      rw [hkept, List.reverse_cons] at hsplit
      rw [List.reverse_cons]
      refine .inr (.inr ⟨List.append_ne_nil_of_right_ne_nil _ hjoined, ?_⟩)
      refine ⟨['/'].intercalate ((before.takeWhile isFiller).reverse ++ segment :: behind.reverse), ?_⟩
      rw [htext, hsplit, Text.intercalate_append_of_ne_nil (by simp) (by simp), List.append_assoc]

/-- The components of what is above a path are the first ones of the path. -/
theorem exists_components_of_mem_ancestors {p a : Path} (h : a ∈ p.ancestors) :
    ∃ rest, p.components = a.components ++ rest := by
  rcases List.mem_cons.mp h with rfl | h
  · exact ⟨[], (List.append_nil _).symm⟩
  rcases exists_text_of_mem_properAncestors h with ha | ⟨ha, hp⟩ | ⟨hne, t, ht⟩
  · refine ⟨p.components, ?_⟩
    rw [show a = ⟨[]⟩ from congrArg Path.mk ha]
    rfl
  · refine ⟨p.names, ?_⟩
    rw [show a = ⟨['/']⟩ from congrArg Path.mk ha, p.components_eq, hp]
    rfl
  · refine ⟨names ⟨t⟩, ?_⟩
    have hp : p = ⟨a.text ++ '/' :: t⟩ := congrArg Path.mk ht
    rw [hp, components_eq, anchor_append_cons hne, names_append_cons, ← List.append_assoc,
      ← components_eq]

/-- Joined behind a name, fillers are slashes and `/.`. -/
theorem exists_intercalate_cons (name : Text) {fillers : List Text}
    (hslash : ∀ s ∈ fillers, '/' ∉ s) (hfillers : ∀ s ∈ fillers, isFiller s = true) :
    ∃ behind, ['/'].intercalate (name :: fillers) = name ++ behind ∧
      (behind = [] ∨ ∃ rest, behind = '/' :: rest ∧
        ∀ s ∈ Text.segments '/' rest, isFiller s = true) := by
  by_cases hnil : fillers = []
  · refine ⟨[], ?_, .inl rfl⟩
    rw [hnil, List.intercalate_singleton, List.append_nil]
  · refine ⟨'/' :: ['/'].intercalate fillers, ?_, .inr ⟨_, rfl, ?_⟩⟩
    · rw [List.intercalate_cons_of_ne_nil hnil, List.append_assoc, List.singleton_append]
    · rw [Text.segments_intercalate hnil hslash]
      exact hfillers

/-- A name with slashes and `/.` behind it is split into the name and fillers. -/
theorem exists_segments_append {name behind : Text} (hslash : '/' ∉ name)
    (hbehind : behind = [] ∨ ∃ rest, behind = '/' :: rest ∧
      ∀ s ∈ Text.segments '/' rest, isFiller s = true) :
    ∃ fillers, Text.segments '/' (name ++ behind) = name :: fillers ∧
      ∀ s ∈ fillers, isFiller s = true := by
  rcases hbehind with rfl | ⟨rest, rfl, hfillers⟩
  · refine ⟨[], ?_, fun s hs => absurd hs List.not_mem_nil⟩
    rw [List.append_nil, Text.segments_of_not_mem hslash]
  · exact ⟨_, Text.segments_append hslash rest, hfillers⟩

/-- The last name of a path is the name that its text ends in. -/
theorem getLast?_names_eq_some_iff (p : Path) (name : Text) :
    p.names.getLast? = some name ↔ p.EndsIn name := by
  constructor
  · intro h
    rcases List.getLast?_eq_some_iff.mp h with ⟨earlier, hnames⟩
    rcases List.filter_eq_append_iff.mp hnames with ⟨above, tail, hsegments, -, htail⟩
    rcases List.filter_eq_cons_iff.mp htail with ⟨fillers, post, rfl, -, hname, hpost⟩
    rw [← List.append_assoc] at hsegments
    have htext : p.text = ['/'].intercalate (above ++ fillers ++ name :: post) := by
      rw [← hsegments, Text.intercalate_segments]
    have hslash : ∀ s ∈ name :: post, '/' ∉ s := by
      intro s hs
      refine Text.not_mem_of_mem_segments (t := p.text) ?_
      rw [hsegments]
      exact List.mem_append_right _ hs
    have hfillers : ∀ s ∈ post, isFiller s = true := by
      intro s hs
      simpa using List.filter_eq_nil_iff.mp hpost s hs
    obtain ⟨behind, hjoined, hbehind⟩ := exists_intercalate_cons name
      (fun s hs => hslash s (List.mem_cons_of_mem _ hs)) hfillers
    -- The name is the whole text, or something is joined in front of it.
    by_cases hnil : above ++ fillers = []
    · refine ⟨[], behind, ?_, .inl rfl, hslash name List.mem_cons_self, by simpa using hname, hbehind⟩
      rw [htext, hnil, List.nil_append, hjoined, List.nil_append]
    · refine ⟨['/'].intercalate (above ++ fillers) ++ ['/'], behind, ?_, .inr ⟨_, rfl⟩,
        hslash name List.mem_cons_self, by simpa using hname, hbehind⟩
      rw [htext, Text.intercalate_append_of_ne_nil hnil (List.cons_ne_nil _ _), hjoined]
      simp only [List.append_assoc, List.cons_append, List.nil_append]
  · rintro ⟨front, behind, htext, hfront, hslash, hname, hbehind⟩
    obtain ⟨post, hsegments, hfillers⟩ := exists_segments_append hslash hbehind
    have hfilter : (name :: post).filter (!isFiller ·) = [name] := by
      rw [List.filter_cons_of_pos (by simpa using hname),
        List.filter_eq_nil_iff.mpr fun s hs => by simpa using hfillers s hs]
    rw [names, htext, List.append_assoc]
    rcases hfront with rfl | ⟨above, rfl⟩
    · rw [List.nil_append, hsegments, hfilter, List.getLast?_singleton]
    · rw [List.append_assoc, List.singleton_append, Text.segments_append_cons, List.filter_append,
        hsegments, hfilter, List.getLast?_concat]

/-- The file name is the name that the text ends in, unless that is `..`. -/
theorem fileName?_eq_some_iff (p : Path) (name : Text) :
    p.fileName? = some name ↔ p.EndsIn name ∧ name ≠ ['.', '.'] := by
  rw [← getLast?_names_eq_some_iff, fileName?, components_eq]
  cases hlast : p.names.getLast? with
  | none =>
      -- There is nothing but the anchor, which is not the name of a file.
      rw [List.getLast?_eq_none_iff.mp hlast, List.append_nil]
      rcases p.anchor_cases with ⟨ha, -⟩ | ⟨ha, -⟩ | ha
      all_goals
        rw [ha]
        simp
  | some last =>
      rcases List.getLast?_eq_some_iff.mp hlast with ⟨earlier, hnames⟩
      have hmem : last ∈ p.names := by
        rw [hnames]
        exact List.mem_concat_self
      rcases List.mem_filter.mp hmem with ⟨hsegment, hnamed⟩
      have hslash : last ≠ ['/'] := by
        rintro rfl
        exact Text.not_mem_of_mem_segments hsegment List.mem_cons_self
      have hdot : last ≠ ['.'] := by
        rintro rfl
        exact absurd hnamed (by decide)
      rw [hnames, ← List.append_assoc, List.getLast?_concat]
      simp only [hslash, hdot, false_or, Option.some.injEq]
      split
      · next hdots =>
          simp only [reduceCtorEq, false_iff, not_and, Decidable.not_not]
          rintro rfl
          exact hdots
      · next hdots =>
          simp only [Option.some.injEq, iff_self_and]
          rintro rfl
          exact hdots

/-- The extension of a file name stands behind its last dot, and something stands in front of that. -/
theorem extension?_eq_some_iff (p : Path) (extension : Text) :
    p.extension? = some extension ↔
      ∃ stem, stem ≠ [] ∧ '.' ∉ extension ∧ p.fileName? = some (stem ++ '.' :: extension) := by
  unfold extension?
  rw [Option.bind_eq_bind, Option.bind_eq_some_iff]
  constructor
  · rintro ⟨name, hname, h⟩
    -- The name is what stands in front of its last dot, the dot, and what stands behind.
    have hsplit := List.takeWhile_append_dropWhile (p := (· ≠ '.')) (l := name.reverse)
    split at h
    · next c d rest hdrop =>
        have hc : c = '.' := by
          have hhead := List.head?_dropWhile_not (· ≠ '.') name.reverse
          rw [hdrop] at hhead
          simpa using hhead
        rcases Option.some.inj h with rfl
        refine ⟨(d :: rest).reverse, by simp, ?_, ?_⟩
        · intro hdot
          simpa using List.mem_takeWhile_imp (List.mem_reverse.mp hdot)
        · rw [hname, Option.some.injEq]
          rw [hdrop, hc] at hsplit
          have hrev := congrArg List.reverse hsplit
          rw [List.reverse_reverse, List.reverse_append, List.reverse_cons] at hrev
          rw [List.append_assoc, List.singleton_append] at hrev
          exact hrev.symm
    · exact absurd h (Option.some_ne_none _).symm
  · rintro ⟨stem, hstem, hdot, hname⟩
    refine ⟨_, hname, ?_⟩
    have hbefore : ∀ c ∈ extension.reverse, decide (c ≠ '.') = true := by
      intro c hc
      refine decide_eq_true ?_
      rintro rfl
      exact hdot (List.mem_reverse.mp hc)
    have hrev : (stem ++ '.' :: extension).reverse = extension.reverse ++ '.' :: stem.reverse := by
      simp
    rcases List.exists_cons_of_ne_nil (mt List.reverse_eq_nil_iff.mp hstem) with ⟨d, rest, hd⟩
    rw [hrev, List.dropWhile_append_of_pos hbefore, List.takeWhile_append_of_pos hbefore, hd]
    simp

end Path

end Restyle
