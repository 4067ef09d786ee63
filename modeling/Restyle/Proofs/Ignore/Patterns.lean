import Mathlib.Data.List.Basic
import Restyle.Ignore.Pattern
import Restyle.Proofs.Ignore.Choices

/-!
# Marks, Groups and Lists of Patterns

How the answer for a pattern is put together from the answers for simpler ones.

A pattern is simplified in three ways. Its exclamation marks are counted, its braces are written out,
and a list of patterns is gone through. None of these can be taken alone. The marks turn around the
answer for all alternatives together, so behind an odd number of them a group asks for every alternative
where it asked for one before. And an alternative that is no glob takes the whole pattern with it, which
then matches nothing, not even if it is negated. So it has to be said for each law which patterns are
globs.

Everything rests on one statement about a body behind any number of marks. There the alternatives are
those of the body, and the parity of the marks decides what is asked of them. A group does not change the
set of alternatives, whatever stands around it, and so its law is a matter of counting them in two ways.

## Main definitions

* `Compiles`: Every alternative of a body is a glob.
* `Matches`: A glob matches a path.
* `IsIdle`: A pattern is a comment, or has an alternative that is no glob.

## Theorems

* `accepts_marked`: What is asked of the alternatives behind some marks.
* `accepts_group`: The same for a group, by the patterns with one alternative in its place.
* `accepts_eq_false_of_isIdle`: An idle pattern matches nothing.
* `accepts_laws`: Marks count by their parity, groups by their alternatives, and lists by their members.
-/

namespace Restyle

namespace Ignore

/-- Whether every alternative of a body is a glob. -/
def Compiles (body : Text) : Prop :=
  ∀ glob ∈ Brace.expand body, (Glob.compile? glob).isSome

instance (body : Text) : Decidable (Compiles body) :=
  inferInstanceAs (Decidable (∀ glob ∈ Brace.expand body, _))

/-- Whether a text is a glob that matches a path. -/
def Matches (path glob : Text) : Prop :=
  ∃ tokens, Glob.compile? glob = some tokens ∧ Glob.accepts tokens path = true

/-- Whether a pattern is a comment, or has an alternative that is no glob. -/
def IsIdle (pattern : Text) : Prop :=
  pattern.head? = some '#' ∨ ¬ Compiles (pattern.dropWhile (· = '!'))

instance (pattern : Text) : Decidable (IsIdle pattern) :=
  inferInstanceAs (Decidable (_ ∨ _))

/-! ### Alternatives -/

theorem mapM_eq_some_iff_map {α β : Type} {f : α → Option β} {xs : List α} {ys : List β} :
    xs.mapM f = some ys ↔ xs.map f = ys.map some := by
  induction xs generalizing ys with
  | nil => cases ys <;> simp
  | cons x xs ih =>
      cases ys with
      | nil => simp [List.mapM_cons, Option.bind_eq_some_iff]
      | cons y ys => simp [List.mapM_cons, Option.bind_eq_some_iff, ih]

/-- A body has globs exactly if every alternative is one. Then one of the globs accepts a path exactly if
    one of the alternatives matches it. -/
theorem compile?_cases (body : Text) :
    (Compiles body ∧ ∃ globs, compile? body = some globs ∧
        ∀ path, globs.any (Glob.accepts · path) = true ↔
          ∃ glob ∈ Brace.expand body, Matches path glob) ∨
      (¬ Compiles body ∧ compile? body = none) := by
  have hmem : ∀ {globs : List (List Glob.Token)}, compile? body = some globs → ∀ glob,
      glob ∈ (Brace.expand body).map Glob.compile? ↔ glob ∈ globs.map some := by
    intro globs hglobs glob
    rw [mapM_eq_some_iff_map.mp hglobs]
  cases hcompile : compile? body with
  | some globs =>
      refine .inl ⟨fun glob hglob => ?_, globs, rfl, fun path => ?_⟩
      · rcases List.mem_map.mp ((hmem hcompile _).mp (List.mem_map_of_mem hglob)) with
          ⟨tokens, -, htokens⟩
        rw [← htokens, Option.isSome_some]
      · rw [List.any_eq_true]
        constructor
        · rintro ⟨tokens, htokens, haccepts⟩
          rcases List.mem_map.mp ((hmem hcompile _).mpr (List.mem_map_of_mem htokens)) with
            ⟨glob, hglob, heq⟩
          exact ⟨glob, hglob, tokens, heq, haccepts⟩
        · rintro ⟨glob, hglob, tokens, heq, haccepts⟩
          rcases List.mem_map.mp ((hmem hcompile _).mp (List.mem_map_of_mem hglob)) with
            ⟨tokens', htokens', heq'⟩
          rw [heq, Option.some.injEq] at heq'
          exact ⟨tokens, heq' ▸ htokens', haccepts⟩
  | none =>
      refine .inr ⟨fun hall => ?_, rfl⟩
      -- If all alternatives were globs, these would be the globs of the body.
      have hglobs : compile? body = some ((Brace.expand body).filterMap Glob.compile?) := by
        rw [compile?, mapM_eq_some_iff_map, List.map_filterMap]
        have hsome : ∀ glob ∈ Brace.expand body,
            (Glob.compile? glob).map some = some (Glob.compile? glob) := by
          intro glob hglob
          rw [← Option.some_get (hall glob hglob), Option.map_some]
        rw [List.filterMap_congr hsome, List.filterMap_eq_map']
      rw [hcompile] at hglobs
      cases hglobs

/-- Behind an even number of marks a body asks for one alternative that matches, and behind an odd number
    for none. Every alternative has to be a glob. -/
theorem accepts_marked (path : Text) {body : Text} (hmark : body.head? ≠ some '!')
    (hcomment : body.head? ≠ some '#') (n : Nat) :
    accepts path (List.replicate n '!' ++ body) = true ↔
      Compiles body ∧ ((∃ glob ∈ Brace.expand body, Matches path glob) ↔ ¬ n % 2 = 1) := by
  have hhead : (List.replicate n '!' ++ body).head? ≠ some '#' := by
    cases n with
    | zero => exact hcomment
    | succ n => exact fun h => absurd (Option.some.inj h) (by decide)
  have hmarks : ∀ c ∈ List.replicate n '!', decide (c = '!') = true := by
    intro c hc
    rw [decide_eq_true_eq, List.eq_of_mem_replicate hc]
  have htake : body.takeWhile (· = '!') = [] := by
    cases body with
    | nil => rfl
    | cons c body => exact List.takeWhile_cons_of_neg (by simpa using hmark)
  have hdrop : body.dropWhile (· = '!') = body := by
    cases body with
    | nil => rfl
    | cons c body => exact List.dropWhile_cons_of_neg (by simpa using hmark)
  rw [accepts, if_neg hhead, List.takeWhile_append_of_pos hmarks, htake, List.append_nil,
    List.dropWhile_append_of_pos hmarks, hdrop]
  simp only [List.length_replicate]
  rcases compile?_cases body with ⟨hall, globs, hglobs, hany⟩ | ⟨hall, hnone⟩
  · rw [hglobs, ← hany path]
    simp only [hall, true_and]
    cases globs.any (Glob.accepts · path) <;> simp
  · rw [hnone]
    simp [hall]

/-- Without marks a body asks for one alternative that matches. -/
theorem accepts_body (path : Text) {body : Text} (hmark : body.head? ≠ some '!')
    (hcomment : body.head? ≠ some '#') (hcompiles : Compiles body) :
    accepts path body = true ↔ ∃ glob ∈ Brace.expand body, Matches path glob := by
  have hzero := accepts_marked path hmark hcomment 0
  rw [List.replicate_zero, List.nil_append, and_iff_right hcompiles] at hzero
  exact hzero.trans (iff_true_right (by decide))

/-- Marks turn the answer for a body around if their number is odd. -/
theorem accepts_replicate (path : Text) {body : Text} (hmark : body.head? ≠ some '!')
    (hcomment : body.head? ≠ some '#') (hcompiles : Compiles body) (n : Nat) :
    accepts path (List.replicate n '!' ++ body) = true ↔
      ¬ (accepts path body = true ↔ n % 2 = 1) := by
  rw [accepts_marked path hmark hcomment, and_iff_right hcompiles,
    accepts_body path hmark hcomment hcompiles, not_iff, not_iff_comm]
  exact iff_comm

/-! ### Groups -/

section Groups

variable {before : Brace.Sequence false} {first : Brace.Sequence true} {others : Brace.Alternatives}
  {after : Text}

/-- A group is a body of globs if each pattern with one alternative in its place is. -/
theorem compiles_group
    (hcompiles : ∀ a ∈ first.write :: others.texts, Compiles (before.write ++ a ++ after)) :
    Compiles (before.write ++ '\x7b' :: first.write ++ others.write ++ '\x7d' :: after) := by
  intro glob hglob
  rcases (before.mem_expand_group first others after glob).mp hglob with ⟨a, ha, hmem⟩
  exact hcompiles a ha glob hmem

/-- What comes behind the text that stands first does not change how a pattern begins. -/
theorem head?_write_append (hne : before.write ≠ []) (rest : Text) :
    (before.write ++ rest).head? = before.write.head? := by
  rw [List.head?_append, Option.or_of_isSome (List.isSome_head?.mpr hne)]

/-- A group asks for one of the patterns with an alternative in its place. -/
theorem accepts_group (path : Text) (hne : before.write ≠ []) (hmark : before.write.head? ≠ some '!')
    (hcomment : before.write.head? ≠ some '#')
    (hcompiles : ∀ a ∈ first.write :: others.texts, Compiles (before.write ++ a ++ after)) :
    accepts path (before.write ++ '\x7b' :: first.write ++ others.write ++ '\x7d' :: after) = true ↔
      ∃ a ∈ first.write :: others.texts, accepts path (before.write ++ a ++ after) = true := by
  have hplain : ∀ a ∈ first.write :: others.texts,
      (accepts path (before.write ++ a ++ after) = true ↔
        ∃ glob ∈ Brace.expand (before.write ++ a ++ after), Matches path glob) := fun a ha =>
    accepts_body path (by rwa [List.append_assoc, head?_write_append hne])
      (by rwa [List.append_assoc, head?_write_append hne]) (hcompiles a ha)
  rw [accepts_body path (by simpa only [List.append_assoc, head?_write_append hne] using hmark)
    (by simpa only [List.append_assoc, head?_write_append hne] using hcomment)
    (compiles_group hcompiles)]
  constructor
  · rintro ⟨glob, hglob, hmatches⟩
    rcases (before.mem_expand_group first others after glob).mp hglob with ⟨a, ha, hmem⟩
    exact ⟨a, ha, (hplain a ha).mpr ⟨glob, hmem, hmatches⟩⟩
  · rintro ⟨a, ha, haccepts⟩
    rcases (hplain a ha).mp haccepts with ⟨glob, hmem, hmatches⟩
    exact ⟨glob, (before.mem_expand_group first others after glob).mpr ⟨a, ha, hmem⟩, hmatches⟩

end Groups

/-! ### Lists -/

/-- A pattern that is a comment, or that has an alternative that is no glob, matches nothing. -/
theorem accepts_eq_false_of_isIdle (path : Text) {pattern : Text} (h : IsIdle pattern) :
    accepts path pattern = false := by
  rw [accepts]
  split
  · rfl
  · next hcomment =>
      have hcompiles := h.resolve_left hcomment
      rcases compile?_cases (pattern.dropWhile (· = '!')) with ⟨hall, -⟩ | ⟨-, hnone⟩
      · exact absurd hall hcompiles
      · simp only [hnone]

/-- Idle patterns may be left out of a list, wherever they stand in it. -/
theorem anyAccepts_filter (path : Text) (patterns : List Text) :
    anyAccepts path (patterns.filter fun pattern => ¬ IsIdle pattern) = anyAccepts path patterns := by
  rw [anyAccepts, anyAccepts, List.any_filter]
  refine List.any_congr ?_ fun pattern => ?_
  · rfl
  · by_cases hidle : IsIdle pattern
    · rw [accepts_eq_false_of_isIdle path hidle, Bool.and_false]
    · rw [decide_eq_true hidle, Bool.true_and]

/-- What a pattern matches is put together from what simpler ones match. Marks in front of a body turn
    its answer around if their number is odd, unless one of its alternatives is no glob, and then nothing
    is matched. A group is matched if one of the patterns with an alternative in its place is, and negated
    it is matched if all of them, negated, are. A list is matched by the members that are, and those that
    are comments or no globs may be left out. -/
theorem accepts_laws (path : Text) :
    (∀ body n, body.head? ≠ some '!' → body.head? ≠ some '#' →
      (Compiles body → (accepts path (List.replicate n '!' ++ body) = true ↔
        ¬ (accepts path body = true ↔ n % 2 = 1))) ∧
      (¬ Compiles body → accepts path (List.replicate n '!' ++ body) = false)) ∧
    (∀ (before : Brace.Sequence false) (first : Brace.Sequence true) (others : Brace.Alternatives)
        (after : Text), before.write ≠ [] → before.write.head? ≠ some '!' →
      before.write.head? ≠ some '#' →
      (∀ a ∈ first.write :: others.texts, Compiles (before.write ++ a ++ after)) →
      (accepts path (before.write ++ '\x7b' :: first.write ++ others.write ++ '\x7d' :: after) = true ↔
        ∃ a ∈ first.write :: others.texts, accepts path (before.write ++ a ++ after) = true) ∧
      (accepts path ('!' :: (before.write ++ '\x7b' :: first.write ++ others.write ++
          '\x7d' :: after)) = true ↔
        ∀ a ∈ first.write :: others.texts,
          accepts path ('!' :: (before.write ++ a ++ after)) = true)) ∧
    ∀ patterns,
      (anyAccepts path patterns = true ↔
        ∃ pattern ∈ patterns, anyAccepts path [pattern] = true) ∧
      anyAccepts path (patterns.filter fun pattern => ¬ IsIdle pattern) = anyAccepts path patterns := by
  refine ⟨fun body n hmark hcomment => ⟨fun hcompiles => ?_, fun hcompiles => ?_⟩, ?_,
    fun patterns => ⟨?_, anyAccepts_filter path patterns⟩⟩
  · exact accepts_replicate path hmark hcomment hcompiles n
  · rw [← Bool.not_eq_true, accepts_marked path hmark hcomment]
    exact fun h => hcompiles h.1
  · intro before first others after hne hmark hcomment hcompiles
    have hgroup := accepts_group path hne hmark hcomment hcompiles
    -- A pattern that begins with the text in front of the group is a body behind one mark.
    have hnegated : ∀ rest, Compiles (before.write ++ rest) →
        (accepts path ('!' :: (before.write ++ rest)) = true ↔
          ¬ accepts path (before.write ++ rest) = true) := by
      intro rest hrest
      have hone := accepts_replicate path (by rwa [head?_write_append hne])
        (by rwa [head?_write_append hne]) hrest 1
      rwa [List.replicate_one, List.singleton_append,
        iff_true_right (show 1 % 2 = 1 from rfl)] at hone
    have hall := compiles_group hcompiles
    refine ⟨hgroup, ?_⟩
    simp only [List.append_assoc] at hgroup hall hcompiles ⊢
    rw [hnegated _ hall, hgroup, not_exists]
    refine forall_congr' fun a => ?_
    rw [not_and]
    exact forall_congr' fun ha => (hnegated _ (hcompiles a ha)).symm
  · simp only [anyAccepts, List.any_cons, List.any_nil, Bool.or_false, List.any_eq_true]

section Examples

/-- Any name, with a dot behind it. -/
def anyName : Brace.Sequence false :=
  .plain '*' (by decide) (.plain '.' (by decide) .nil)

/-- One extension. -/
def oneExtension : Brace.Sequence true :=
  .plain 'j' (by decide) (.plain 's' (by decide) .nil)

/-- Another one, to which a letter may be added. -/
def otherExtensions : Brace.Alternatives :=
  .last (.plain 't' (by decide) <| .plain 's' (by decide) <|
    .group (.plain 'x' (by decide) .nil) (.last .nil) .nil)

theorem accepts_laws_extensions :
    (Compiles "*.js".toList ∧ (accepts "a.tsx".toList "!!!*.js".toList = true ↔
      ¬ (accepts "a.tsx".toList "*.js".toList = true ↔ 3 % 2 = 1))) ∧
    (¬ Compiles "*.\x7bjs,[\x7d".toList ∧
      accepts "a.js".toList "!*.\x7bjs,[\x7d".toList = false) ∧
    (anyName.write ≠ [] ∧ anyName.write.head? ≠ some '!' ∧ anyName.write.head? ≠ some '#' ∧
      (∀ a ∈ oneExtension.write :: otherExtensions.texts, Compiles (anyName.write ++ a ++ [])) ∧
      accepts "a.tsx".toList "*.\x7bjs,ts\x7bx,\x7d\x7d".toList = true ∧
      accepts "a.tsx".toList "!*.\x7bjs,ts\x7bx,\x7d\x7d".toList = false) := by
  have hcompiles : ∀ a ∈ oneExtension.write :: otherExtensions.texts,
      Compiles (anyName.write ++ a ++ []) := by decide +kernel
  have hjs : Compiles "*.js".toList := by decide +kernel
  have hclass : ¬ Compiles "*.\x7bjs,[\x7d".toList := by decide +kernel
  rcases accepts_laws "a.tsx".toList with ⟨hmarks, hgroups, -⟩
  rcases accepts_laws "a.js".toList with ⟨hmarks', -⟩
  have hgroup := hgroups anyName oneExtension otherExtensions [] (by decide) (by decide) (by decide)
    hcompiles
  refine ⟨⟨hjs, (hmarks "*.js".toList 3 (by decide) (by decide)).1 hjs⟩,
    ⟨hclass, (hmarks' _ 1 (by decide) (by decide)).2 hclass⟩,
    by decide, by decide, by decide, hcompiles, ?_, ?_⟩
  · refine hgroup.1.mpr ⟨"ts\x7bx,\x7d".toList, by decide, ?_⟩
    decide +kernel
  · refine Bool.eq_false_iff.mpr fun h => ?_
    -- Negated, the pattern asks for both alternatives, and one of them has matched.
    have hother := hgroup.2.mp h "ts\x7bx,\x7d".toList (by decide)
    exact absurd hother (by decide +kernel)

end Examples

end Ignore

end Restyle
