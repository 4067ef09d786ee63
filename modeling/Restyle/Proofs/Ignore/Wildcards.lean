import Mathlib.Data.List.Infix
import Restyle.Proofs.Ignore.Patterns
import Restyle.Proofs.Text.Segments

/-!
# Wildcards in Patterns

Which paths a pattern with a wildcard matches.

A wildcard is tried with nothing first, and then with longer and longer parts of the path. Two things
make it less than obvious what it matches in the end. The attempts stop at a slash, or at a dot that
hides a component, and whether a dot does depends on the character in front of it, which may be one that
the wildcard has just passed. And they also stop when what follows the wildcard has run out of the path,
for then it is taken for granted that it matches no shorter part either.

That assumption is a property of what follows the wildcard, and it is stated as such. With it the search
finds all there is to be found: a wildcard matches in front of what follows it if and only if the path
has two parts, one that may be passed and one that is matched. Characters that stand for themselves have
the property, since they only run out of a path that is too short for them. So the paths of a pattern
with one wildcard among such characters can be written down.

## Main definitions

* `beginsBehind`: Whether a component begins behind a text.
* `Passes`: What a wildcard may stand for.
* `IsSettled`: Where the path has run out, no shorter part is matched either.
* `Parts`: The two parts of a path.
* `IsLiteral`: No character of a text has a meaning of its own.
* `NoneHidden`: No component of a path begins with a dot.

## Theorems

* `run_literal_append`: Characters are matched one by one.
* `sweep_eq_hit_iff`: A sweep finds every part that a wildcard may stand for.
* `run_wildcard`: A wildcard matches in front of what follows it if and only if there are two parts.
* `accepts_iff_run`: A pattern without braces is run as it is compiled.
* `anyAccepts_wildcards`: The paths that patterns with at most one wildcard match.
-/

namespace Restyle

namespace Glob

/-- Whether a component begins behind a text, given whether one begins in front of it. -/
def beginsBehind : Bool → Text → Bool
  | fresh, [] => fresh
  | _, c :: t => beginsBehind (c == '/') t

/-- What a wildcard may stand for: no dot where a component begins, and no slash unless it stands for
    whole components. -/
def Passes (components : Bool) : Bool → Text → Prop
  | _, [] => True
  | fresh, c :: t =>
    ¬ (fresh = true ∧ c = '.') ∧ (components = true ∨ c ≠ '/') ∧ Passes components (c == '/') t

/-- Where the rest of a pattern has run out of the path, it matches no shorter part of the path either. -/
def IsSettled (next : Bool → Text → Outcome) : Prop :=
  ∀ fresh path, next fresh path = .exhausted →
    ∀ fresh' rest, rest <:+ path → next fresh' rest ≠ .hit

/-- The token of a wildcard. -/
def wildcard (components : Bool) : Token :=
  if components then .anyComponents else .anySequence

/-- Whether no character of a text has a meaning of its own in a pattern. -/
def IsLiteral (t : Text) : Prop :=
  ∀ c ∈ t, c ≠ '*' ∧ c ≠ '?' ∧ c ≠ '[' ∧ c ≠ '\x7b'

instance (t : Text) : Decidable (IsLiteral t) :=
  List.decidableBAll _ t

/-- The tokens of characters that stand for themselves. -/
def literal (t : Text) : List Token :=
  t.map .char

/-- A wildcard stands for the first of two parts of a path, and what follows it matches the second. If it
    stands for whole components, one ends between them, or the path does. -/
structure Parts (components : Bool) (next : Bool → Text → Outcome) (fresh : Bool)
    (path first rest : Text) : Prop where
  path_eq : path = first ++ rest
  passes : Passes components fresh first
  ends : components = true → rest = [] ∨ beginsBehind fresh first = true
  rest_hit : next (beginsBehind fresh first) rest = .hit

theorem beginsBehind_eq (fresh : Bool) (t : Text) :
    beginsBehind fresh t = true ↔ t = [] ∧ fresh = true ∨ t.getLast? = some '/' := by
  induction t generalizing fresh with
  | nil => simp [beginsBehind]
  | cons c t ih =>
      rw [beginsBehind, ih]
      cases t with
      | nil => simp
      | cons d t => simp

/-- In a path a component begins at the beginning and behind every slash. -/
theorem beginsBehind_iff (t : Text) :
    beginsBehind true t = true ↔ t = [] ∨ t.getLast? = some '/' := by
  rw [beginsBehind_eq]
  exact or_congr_left (and_iff_left rfl)

/-! ### Characters that stand for themselves -/

theorem run_literal_cons (c : Char) (t : Text) (tokens : List Token) (fresh : Bool) (d : Char)
    (path : Text) :
    run (literal (c :: t) ++ tokens) fresh (d :: path) =
      if d = c then run (literal t ++ tokens) (d == '/') path else .miss := by
  simp [literal, run, Token.isLiteral, Token.accepts]

theorem run_literal_append (t : Text) (tokens : List Token) (fresh : Bool) (path : Text) :
    run (literal t ++ tokens) fresh path = .hit ↔
      ∃ rest, path = t ++ rest ∧ run tokens (beginsBehind fresh t) rest = .hit := by
  induction t generalizing fresh path with
  | nil => simp [literal, beginsBehind]
  | cons c t ih =>
      cases path with
      | nil => simp [literal, run]
      | cons d path =>
          rw [run_literal_cons]
          by_cases hd : d = c
          · subst hd
            simp [ih, beginsBehind]
          · simp [hd]

theorem run_nil (fresh : Bool) (path : Text) : run [] fresh path = .hit ↔ path = [] := by
  rw [run]
  split <;> simp [*]

/-- Characters match nothing but themselves. -/
theorem run_literal (t : Text) (fresh : Bool) (path : Text) :
    run (literal t) fresh path = .hit ↔ path = t := by
  have happend := run_literal_append t [] fresh path
  simp only [List.append_nil, run_nil] at happend
  rw [happend]
  constructor
  · rintro ⟨rest, rfl, rfl⟩
    exact List.append_nil t
  · rintro rfl
    exact ⟨[], (List.append_nil _).symm, rfl⟩

/-- A path runs out before some characters do only if it is shorter. -/
theorem length_lt_of_run_literal {t : Text} {fresh : Bool} {path : Text}
    (h : run (literal t) fresh path = .exhausted) : path.length < t.length := by
  induction t generalizing fresh path with
  | nil =>
      rw [literal, List.map_nil, run] at h
      split at h <;> cases h
  | cons c t ih =>
      cases path with
      | nil => exact Nat.zero_lt_succ _
      | cons d path =>
          rw [← List.append_nil (literal (c :: t)), run_literal_cons, List.append_nil] at h
          split at h
          · exact Nat.succ_lt_succ (ih h)
          · cases h

theorem isSettled_literal (t : Text) : IsSettled (run (literal t)) := by
  intro fresh path hexhausted fresh' rest hrest hhit
  have hlength := length_lt_of_run_literal hexhausted
  rw [(run_literal t fresh' rest).mp hhit] at hrest
  exact absurd hrest.length_le (Nat.not_le.mpr hlength)

/-! ### Wildcards -/

section Sweep

variable {components : Bool} {next : Bool → Text → Outcome} {fresh : Bool}

theorem parts_cons_iff {c : Char} {path first rest : Text} :
    Parts components next fresh (c :: path) (c :: first) rest ↔
      (¬ (fresh = true ∧ c = '.') ∧ (components = true ∨ c ≠ '/')) ∧
        Parts components next (c == '/') path first rest := by
  constructor
  · rintro ⟨path_eq, ⟨hdot, hslash, passes⟩, ends, rest_hit⟩
    exact ⟨⟨hdot, hslash⟩, (List.cons.inj path_eq).2, passes, ends, rest_hit⟩
  · rintro ⟨⟨hdot, hslash⟩, path_eq, passes, ends, rest_hit⟩
    exact ⟨by rw [path_eq, List.cons_append], ⟨hdot, hslash, passes⟩, ends, rest_hit⟩

/-- Where a component begins, or where that does not matter, a wildcard may stand for nothing. If what
    follows it misses then, longer and longer parts are tried. -/
theorem attempt_eq_hit_iff (h : IsSettled next) (hfresh : components = true → fresh = true)
    {path : Text}
    (hsweep : sweep components next fresh path = .hit ↔
      ∃ first rest, Parts components next fresh path first rest ∧ (first = [] → rest = [])) :
    (match next fresh path with
      | .miss => sweep components next fresh path
      | outcome => outcome) = .hit ↔
      ∃ first rest, Parts components next fresh path first rest := by
  cases hnext : next fresh path with
  | hit => exact iff_of_true rfl ⟨[], path, rfl, trivial, fun hc => .inr (hfresh hc), hnext⟩
  | exhausted =>
      refine iff_of_false (nomatch ·) ?_
      rintro ⟨first, rest, hparts⟩
      exact h _ _ hnext _ _ ⟨first, hparts.path_eq.symm⟩ hparts.rest_hit
  | miss =>
      refine hsweep.trans ⟨fun ⟨first, rest, hparts, _⟩ => ⟨first, rest, hparts⟩, ?_⟩
      rintro ⟨first, rest, hparts⟩
      refine ⟨first, rest, hparts, ?_⟩
      rintro rfl
      -- Standing for nothing has been tried, and was a miss.
      have hhit := hparts.rest_hit
      rw [← List.nil_append rest, ← hparts.path_eq, beginsBehind, hnext] at hhit
      cases hhit

/-- A sweep finds every part that a wildcard may stand for, but for the empty one. -/
theorem sweep_eq_hit_iff (h : IsSettled next) (path : Text) :
    sweep components next fresh path = .hit ↔
      ∃ first rest, Parts components next fresh path first rest ∧ (first = [] → rest = []) := by
  induction path generalizing fresh with
  | nil =>
      rw [sweep]
      constructor
      · intro hhit
        exact ⟨[], [], ⟨rfl, trivial, fun _ => .inl rfl, hhit⟩, fun _ => rfl⟩
      · rintro ⟨first, rest, hparts, -⟩
        rcases List.append_eq_nil_iff.mp hparts.path_eq.symm with ⟨rfl, rfl⟩
        exact hparts.rest_hit
  | cons c path ih =>
      -- The first character is passed over, and then the rest of the path is swept.
      have hcons : (∃ first rest, Parts components next fresh (c :: path) first rest ∧
            (first = [] → rest = [])) ↔
          (¬ (fresh = true ∧ c = '.') ∧ (components = true ∨ c ≠ '/')) ∧
            ∃ first rest, Parts components next (c == '/') path first rest := by
        constructor
        · rintro ⟨first, rest, hparts, hempty⟩
          cases first with
          | nil =>
              have hpath := hparts.path_eq
              rw [hempty rfl] at hpath
              cases hpath
          | cons d first =>
              obtain rfl : c = d := (List.cons.inj hparts.path_eq).1
              rcases parts_cons_iff.mp hparts with ⟨hpass, hrest⟩
              exact ⟨hpass, first, rest, hrest⟩
        · rintro ⟨hpass, first, rest, hrest⟩
          exact ⟨c :: first, rest, parts_cons_iff.mpr ⟨hpass, hrest⟩, fun hnil => nomatch hnil⟩
      rw [hcons, sweep]
      by_cases hdot : fresh = true ∧ c = '.'
      · simp [hdot]
      have hdot' : ¬ (fresh && c == '.') = true := by simpa using hdot
      rw [if_neg hdot', and_iff_right hdot]
      by_cases hslash : c = '/'
      · cases components with
        | false => simp [hslash]
        | true =>
            rw [if_neg (by simp [hslash]), if_neg (by simp),
              and_iff_right (.inl rfl)]
            exact attempt_eq_hit_iff h (fun _ => beq_iff_eq.mpr hslash) ih
      · have hfresh : (c == '/') = false := beq_eq_false_iff_ne.mpr hslash
        rw [and_iff_right (.inr hslash)]
        cases components with
        | false =>
            rw [if_neg (by simp), if_neg (by simp [hslash])]
            exact attempt_eq_hit_iff h (fun hc => absurd hc Bool.false_ne_true) ih
        | true =>
            rw [if_pos (by simp [hslash]), hfresh]
            -- Inside a component nothing is tried, so nothing is lost if the part is empty.
            refine ih.trans ⟨fun ⟨first, rest, hparts, _⟩ => ⟨first, rest, hparts⟩, ?_⟩
            rintro ⟨first, rest, hparts⟩
            refine ⟨first, rest, hparts, ?_⟩
            rintro rfl
            exact (hparts.ends rfl).resolve_right Bool.false_ne_true

end Sweep

/-- A wildcard in front of tokens matches what it may stand for in front of what they match. One for whole
    components is only ever tried where a component begins. -/
theorem run_wildcard {tokens : List Token} (h : IsSettled (run tokens)) {components fresh : Bool}
    (hfresh : components = true → fresh = true) (path : Text) :
    run (wildcard components :: tokens) fresh path = .hit ↔
      ∃ first rest, Parts components (run tokens) fresh path first rest := by
  cases components with
  | false => exact attempt_eq_hit_iff h hfresh (sweep_eq_hit_iff h path)
  | true => exact attempt_eq_hit_iff h hfresh (sweep_eq_hit_iff h path)

/-- Within one component only the first character may be a dot that hides it. -/
theorem passes_false_iff (fresh : Bool) (t : Text) :
    Passes false fresh t ↔ '/' ∉ t ∧ (fresh = true → t.head? ≠ some '.') := by
  induction t generalizing fresh with
  | nil => simp [Passes]
  | cons c t ih =>
      rw [Passes, ih, List.mem_cons, not_or]
      constructor
      · rintro ⟨hdot, hslash, hrest, -⟩
        have hne := hslash.resolve_left Bool.false_ne_true
        exact ⟨⟨Ne.symm hne, hrest⟩, fun hfresh heq => hdot ⟨hfresh, Option.some.inj heq⟩⟩
      · rintro ⟨⟨hne, hrest⟩, hhead⟩
        refine ⟨fun hdot => hhead hdot.1 (congrArg some hdot.2), .inr (Ne.symm hne), hrest, ?_⟩
        exact fun hc => absurd (beq_iff_eq.mp hc) (Ne.symm hne)

/-- Whole components may be passed if none of them is hidden. The first is asked about only where it
    begins with the text. -/
theorem passes_true_iff (fresh : Bool) (t : Text) :
    Passes true fresh t ↔ (fresh = true → (t.splitSegments '/').1.head? ≠ some '.') ∧
      ∀ component ∈ (t.splitSegments '/').2, component.head? ≠ some '.' := by
  induction t generalizing fresh with
  | nil => simp [Passes, Text.splitSegments]
  | cons c t ih =>
      rw [Passes, ih, Text.splitSegments]
      by_cases hslash : c = '/'
      · simp [hslash]
      · simp [hslash]

/-! ### Compiling -/

theorem IsLiteral.not_mem_brace {t : Text} (h : IsLiteral t) : '\x7b' ∉ t :=
  fun hmem => (h _ hmem).2.2.2 rfl

theorem compileFrom_cons {c : Char} (hstar : c ≠ '*') (hany : c ≠ '?') (hclass : c ≠ '[')
    (built : List Token) (fresh : Bool) (rest : Text) :
    compileFrom built (.outside fresh) (c :: rest) =
      compileFrom (.char c :: built) (.outside (c == '/')) rest := by
  rw [compileFrom]
  · rfl
  all_goals simp only [hstar, hany, hclass, IsEmpty.forall_iff, implies_true]

/-- Characters without a meaning of their own are compiled to themselves. -/
theorem compileFrom_append {t : Text} (h : IsLiteral t) (built : List Token) (fresh : Bool)
    (rest : Text) :
    compileFrom built (.outside fresh) (t ++ rest) =
      compileFrom ((literal t).reverse ++ built) (.outside (beginsBehind fresh t)) rest := by
  induction t generalizing built fresh with
  | nil => rfl
  | cons c t ih =>
      rcases h c List.mem_cons_self with ⟨hstar, hany, hclass, -⟩
      rw [List.cons_append, compileFrom_cons hstar hany hclass,
        ih fun d hd => h d (List.mem_cons_of_mem c hd)]
      simp [literal, beginsBehind]

theorem compileFrom_literal {t : Text} (h : IsLiteral t) (built : List Token) (fresh : Bool) :
    compileFrom built (.outside fresh) t = some (built.reverse ++ literal t) := by
  have happend := compileFrom_append h built fresh []
  rw [List.append_nil] at happend
  rw [happend, compileFrom, List.reverse_append, List.reverse_reverse]

theorem compile?_literal {p : Text} (h : IsLiteral p) : compile? p = some (literal p) :=
  compileFrom_literal h [] true

theorem compile?_star {p s : Text} (hp : IsLiteral p) (hs : IsLiteral s) :
    compile? (p ++ '*' :: s) = some (literal p ++ wildcard false :: literal s) := by
  have hstar : ∀ built fresh, compileFrom built (.outside fresh) ('*' :: s) =
      compileFrom (.anySequence :: built) (.outside false) s := by
    intro built fresh
    cases s with
    | nil => rfl
    | cons c s =>
        -- The star is not the first of two.
        have hc := (hs c List.mem_cons_self).1
        rw [compileFrom]
        all_goals simp [hc]
  rw [compile?, compileFrom_append hp, hstar, compileFrom_literal hs]
  simp [wildcard]

theorem compile?_below {p : Text} (hp : IsLiteral p) :
    compile? (p ++ "/**".toList) = some (literal (p ++ ['/']) ++ [wildcard true]) := by
  rw [compile?, compileFrom_append hp]
  simp [compileFrom, pushComponents, literal, wildcard]

theorem compile?_anywhere {s : Text} (hs : IsLiteral s) :
    compile? ("**/".toList ++ s) = some (wildcard true :: literal s) :=
  compileFrom_literal hs [.anyComponents] true

end Glob

namespace Brace

/-- Without an opening brace there is no group. -/
theorem scan_eq_none {p : Text} (h : '\x7b' ∉ p) (read : Text) : scan read none p = none := by
  generalize ho : (none : Option Open) = o
  fun_induction scan read o p with
  | case1 => rfl
  | case2 read c rest ih => exact ih (fun hc => h (by simp [hc])) ho
  | case3 => exact absurd List.mem_cons_self h
  | case4 read c rest _ _ ih => exact ih (fun hc => h (by simp [hc])) ho
  | _ => cases ho

end Brace

namespace Ignore

open Glob

/-- Whether no component of a path is hidden by a dot at its beginning. -/
def NoneHidden (path : Text) : Prop :=
  ∀ component ∈ path.segments '/', component.head? ≠ some '.'

instance (path : Text) : Decidable (NoneHidden path) :=
  inferInstanceAs (Decidable (∀ component ∈ path.segments '/', _))

theorem passes_iff_noneHidden (t : Text) : Passes true true t ↔ NoneHidden t := by
  rw [passes_true_iff, NoneHidden, Text.segments, List.forall_mem_cons]
  exact and_congr_left' (forall_prop_of_true rfl)

/-- A pattern that is a glob without braces is run as it is. -/
theorem accepts_iff_run (path : Text) {pattern : Text} {tokens : List Token}
    (hmark : pattern.head? ≠ some '!') (hcomment : pattern.head? ≠ some '#')
    (hbrace : '\x7b' ∉ pattern) (htokens : Glob.compile? pattern = some tokens) :
    accepts path pattern = true ↔ run tokens true path = .hit := by
  have hexpand : Brace.expand pattern = [pattern] :=
    Brace.expand_of_group?_eq_none (Brace.scan_eq_none hbrace [])
  have hcompiles : Compiles pattern := by
    rw [Compiles, hexpand, List.forall_mem_singleton, htokens, Option.isSome_some]
  rw [accepts_body path hmark hcomment hcompiles, hexpand]
  simp [Matches, htokens, Glob.accepts]

theorem head?_append_ne {a b : Text} {c : Char} (ha : a.head? ≠ some c) (hb : b.head? ≠ some c) :
    (a ++ b).head? ≠ some c := by
  cases a with
  | nil => exact hb
  | cons d a => exact ha

/-- A slash at the end hides nothing. -/
theorem noneHidden_concat (q : Text) : NoneHidden (q ++ ['/']) ↔ NoneHidden q := by
  rw [NoneHidden, Text.segments_append_cons, List.forall_mem_append, NoneHidden]
  exact and_iff_left (by decide)

section Families

variable {p s : Text} (hp : IsLiteral p) (hs : IsLiteral s) (hmark : p.head? ≠ some '!')
  (hcomment : p.head? ≠ some '#') (path : Text)

include hp hmark hcomment

/-- Characters match themselves. -/
theorem accepts_literal : accepts path p = true ↔ path = p := by
  rw [accepts_iff_run path hmark hcomment hp.not_mem_brace (compile?_literal hp), run_literal]

include hs in
/-- A star matches characters of one component, but not its dot. -/
theorem accepts_star : accepts path (p ++ '*' :: s) = true ↔
    ∃ m, path = p ++ m ++ s ∧ '/' ∉ m ∧ (p = [] ∨ p.getLast? = some '/' → m.head? ≠ some '.') := by
  rw [accepts_iff_run path (head?_append_ne hmark (by simp)) (head?_append_ne hcomment (by simp))
    (by simp [hp.not_mem_brace, hs.not_mem_brace]) (compile?_star hp hs), run_literal_append]
  simp only [run_wildcard (isSettled_literal s) fun hc => absurd hc Bool.false_ne_true]
  constructor
  · rintro ⟨rest, rfl, m, rest', hparts⟩
    rcases (passes_false_iff _ _).mp hparts.passes with ⟨hslash, hdot⟩
    refine ⟨m, ?_, hslash, fun hend => hdot ((beginsBehind_iff p).mpr hend)⟩
    rw [hparts.path_eq, (run_literal s _ _).mp hparts.rest_hit, List.append_assoc]
  · rintro ⟨m, rfl, hslash, hdot⟩
    refine ⟨m ++ s, List.append_assoc p m s, m, s, rfl, ?_, fun hc => absurd hc Bool.false_ne_true,
      (run_literal s _ _).mpr rfl⟩
    exact (passes_false_iff _ _).mpr ⟨hslash, fun hbegins => hdot ((beginsBehind_iff p).mp hbegins)⟩

/-- Two stars at the end match everything below a directory that is not hidden. -/
theorem accepts_below : accepts path (p ++ "/**".toList) = true ↔
    ∃ q, path = p ++ '/' :: q ∧ NoneHidden q := by
  have hbegins : beginsBehind true (p ++ ['/']) = true :=
    (beginsBehind_iff _).mpr (.inr List.getLast?_concat)
  have hsettled : IsSettled (run []) := isSettled_literal []
  rw [accepts_iff_run path (head?_append_ne hmark (by simp)) (head?_append_ne hcomment (by simp))
    (by simp [hp.not_mem_brace]) (compile?_below hp), run_literal_append, hbegins]
  simp only [run_wildcard hsettled fun _ => rfl]
  constructor
  · rintro ⟨rest, rfl, q, rest', hparts⟩
    have hrest := (run_nil _ _).mp hparts.rest_hit
    refine ⟨q, ?_, (passes_iff_noneHidden q).mp hparts.passes⟩
    rw [hparts.path_eq, hrest, List.append_nil, List.append_assoc, List.singleton_append]
  · rintro ⟨q, rfl, hq⟩
    refine ⟨q, by simp, q, [], (List.append_nil q).symm, (passes_iff_noneHidden q).mpr hq,
      fun _ => .inl rfl, (run_nil _ _).mpr rfl⟩

omit hp hmark hcomment in
include hs in
/-- Two stars at the beginning match any directories that are not hidden, or none. -/
theorem accepts_anywhere (hne : s ≠ []) : accepts path ("**/".toList ++ s) = true ↔
    path = s ∨ ∃ q, path = q ++ '/' :: s ∧ NoneHidden q := by
  rw [accepts_iff_run path (by simp) (by simp) (by simp [hs.not_mem_brace]) (compile?_anywhere hs),
    run_wildcard (isSettled_literal s) fun _ => rfl]
  constructor
  · rintro ⟨first, rest, hparts⟩
    obtain rfl := (run_literal s _ _).mp hparts.rest_hit
    have hends := (beginsBehind_iff first).mp ((hparts.ends rfl).resolve_left hne)
    rw [hparts.path_eq]
    rcases hends with rfl | hlast
    · exact .inl rfl
    · obtain ⟨q, rfl⟩ := List.getLast?_eq_some_iff.mp hlast
      refine .inr ⟨q, by simp, (noneHidden_concat q).mp ?_⟩
      exact (passes_iff_noneHidden _).mp hparts.passes
  · rintro (rfl | ⟨q, rfl, hq⟩)
    · exact ⟨[], path, rfl, trivial, fun _ => .inr rfl, (run_literal path _ _).mpr rfl⟩
    · refine ⟨q ++ ['/'], s, by simp, ?_, fun _ => .inr ?_, (run_literal s _ _).mpr rfl⟩
      · exact (passes_iff_noneHidden _).mpr ((noneHidden_concat q).mpr hq)
      · exact (beginsBehind_iff _).mpr (.inr List.getLast?_concat)

end Families

/-- What the patterns with at most one wildcard match. Characters match themselves. A star matches any
    run of characters without a slash, which may not begin with the dot that hides a component. Two stars
    match any components that are not hidden, behind a slash at the end of a pattern, and in front of one
    at its beginning, where there may also be none. -/
theorem anyAccepts_wildcards {p s : Text} (hp : IsLiteral p) (hs : IsLiteral s)
    (hmark : p.head? ≠ some '!') (hcomment : p.head? ≠ some '#') (path : Text) :
    (anyAccepts path [p] = true ↔ path = p) ∧
    (anyAccepts path [p ++ '*' :: s] = true ↔
      ∃ m, path = p ++ m ++ s ∧ '/' ∉ m ∧
        (p = [] ∨ p.getLast? = some '/' → m.head? ≠ some '.')) ∧
    (anyAccepts path [p ++ "/**".toList] = true ↔ ∃ q, path = p ++ '/' :: q ∧ NoneHidden q) ∧
    (s ≠ [] → (anyAccepts path ["**/".toList ++ s] = true ↔
      path = s ∨ ∃ q, path = q ++ '/' :: s ∧ NoneHidden q)) := by
  have hone : ∀ pattern, anyAccepts path [pattern] = accepts path pattern := fun pattern =>
    Bool.or_false _
  simp only [hone]
  exact ⟨accepts_literal hp hmark hcomment path, accepts_star hp hs hmark hcomment path,
    accepts_below hp hmark hcomment path, accepts_anywhere hs path⟩

theorem anyAccepts_wildcards_hiddenNames :
    (IsLiteral "src/".toList ∧ IsLiteral ".js".toList ∧ "src/".toList.head? ≠ some '!' ∧
      "src/".toList.head? ≠ some '#' ∧ ".js".toList ≠ []) ∧
    anyAccepts "src/.js".toList ["src/*.js".toList] = true ∧
    anyAccepts "src/.a.js".toList ["src/*.js".toList] = false ∧
    anyAccepts "src//a/.b".toList ["src//**".toList] = false ∧
    anyAccepts "a//.js".toList ["**/.js".toList] = true := by
  have hp : IsLiteral "src/".toList := by decide
  have hs : IsLiteral ".js".toList := by decide
  have hwildcards := anyAccepts_wildcards hp hs (by decide) (by decide)
  refine ⟨⟨hp, hs, by decide, by decide, by decide⟩, ?_, ?_, ?_, ?_⟩
  · exact (hwildcards "src/.js".toList).2.1.mpr ⟨[], rfl, by decide, by decide⟩
  · refine Bool.eq_false_iff.mpr fun haccepts => ?_
    rcases (hwildcards "src/.a.js".toList).2.1.mp haccepts with ⟨m, hpath, -, hdot⟩
    -- The star could only stand for a name that is hidden.
    have hparts : "src/".toList ++ ".a".toList ++ ".js".toList = "src/".toList ++ m ++ ".js".toList :=
      hpath
    rw [← List.append_cancel_left (List.append_cancel_right hparts)] at hdot
    exact hdot (.inr rfl) rfl
  · refine Bool.eq_false_iff.mpr fun haccepts => ?_
    rcases (hwildcards "src//a/.b".toList).2.2.1.mp haccepts with ⟨q, hpath, hq⟩
    have hparts : "src/".toList ++ '/' :: "a/.b".toList = "src/".toList ++ '/' :: q := hpath
    rw [← (List.cons.inj (List.append_cancel_left hparts)).2] at hq
    exact absurd hq (by decide)
  · exact ((hwildcards "a//.js".toList).2.2.2 (by decide)).mpr (.inr ⟨"a/".toList, rfl, by decide⟩)

end Ignore

end Restyle
