import Restyle.Text

/-!
# Braces

Alternatives in braces, written out.

A pattern such as `src/*.{js,jsx}` stands for one pattern for each alternative. Only the first group
with a comma of its own is written out at a time, which gives shorter patterns that are treated in the
same way; this also writes out the groups inside an alternative. A group without a comma is no group
but text, and so is everything from a brace that is never closed. A backslash takes the meaning from
the character behind it.

## Main definitions

* `Brace.Group`: A group of alternatives, with the text around it.
* `Brace.group?`: The first group of a pattern.
* `Brace.expand`: The patterns that a pattern stands for.

## Theorems

* `text_of_group?`: A group is what stands in the pattern.
* `expand_of_group?_eq_none`: A pattern without a group stands for itself.
-/

namespace Restyle.Brace

/-- A group of alternatives, with what stands before and behind it. -/
structure Group where
  before : Text
  alternatives : List Text
  after : Text
  deriving DecidableEq, Repr

/-- A group as it is written. -/
def Group.text (g : Group) : Text :=
  g.before ++ '\x7b' :: [','].intercalate g.alternatives ++ '\x7d' :: g.after

/-- A scanner inside a group: how many braces are open beyond its own, the alternative being read,
    newest character first, and those before it, newest first. -/
structure Open where
  depth : Nat := 0
  current : Text := []
  earlier : List Text := []
  deriving DecidableEq, Repr

/-- Read another character of the current alternative, after which so many braces are open. -/
def Open.push (o : Open) (depth : Nat) (c : Char) : Open :=
  { depth, current := c :: o.current, earlier := o.earlier }

/-- Begin another alternative. -/
def Open.next (o : Open) : Open :=
  { depth := o.depth, earlier := o.current :: o.earlier }

/-- The first group behind a text that has been read, newest character first, and behind the brace of
    a group, if one is open. -/
def scan (read : Text) : Option Open → Text → Option Group
  | _, [] => none
  | none, '\\' :: c :: rest => scan (c :: '\\' :: read) none rest
  | none, c :: rest =>
    if c = '\x7b' then scan read (some {}) rest else scan (c :: read) none rest
  | some o, '\\' :: c :: rest => scan read (some ((o.push o.depth '\\').push o.depth c)) rest
  | some o, c :: rest =>
    if c = '\x7b' then scan read (some (o.push (o.depth + 1) c)) rest
    else if c = '\x7d' then
      if o.depth ≠ 0 then scan read (some (o.push (o.depth - 1) c)) rest
      else if o.earlier = [] then scan ('\x7d' :: o.current ++ '\x7b' :: read) none rest
      else
        some
          { before := read.reverse
            alternatives := (o.current :: o.earlier).reverse.map List.reverse
            after := rest }
    else if c = ',' ∧ o.depth = 0 then scan read (some o.next) rest
    else scan read (some (o.push o.depth c)) rest

/-- The first group of a pattern. -/
def group? (pattern : Text) : Option Group :=
  scan [] none pattern

/-- An open group as it is written so far. -/
def Open.text (o : Open) : Text :=
  '\x7b' :: [','].intercalate ((o.current :: o.earlier).reverse.map List.reverse)

/-- Parts joined, when there is one more. -/
theorem intercalate_next (sep l m : Text) (parts : List Text) :
    sep.intercalate (parts ++ [l, m]) = sep.intercalate (parts ++ [l]) ++ sep ++ m := by
  induction parts with
  | nil => simp
  | cons p parts ih =>
    obtain ⟨q, qs, hq⟩ : ∃ q qs, parts ++ [l, m] = q :: qs := List.exists_cons_of_ne_nil (by simp)
    obtain ⟨r, rs, hr⟩ : ∃ r rs, parts ++ [l] = r :: rs := List.exists_cons_of_ne_nil (by simp)
    rw [List.cons_append, List.cons_append, hq, hr, List.intercalate_cons_cons,
      List.intercalate_cons_cons, ← hq, ← hr, ih]
    simp

/-- Parts joined, when the last part grows. -/
theorem intercalate_grow (sep l m : Text) (parts : List Text) :
    sep.intercalate (parts ++ [l ++ m]) = sep.intercalate (parts ++ [l]) ++ m := by
  induction parts with
  | nil => simp
  | cons p parts ih =>
    obtain ⟨q, qs, hq⟩ : ∃ q qs, parts ++ [l ++ m] = q :: qs :=
      List.exists_cons_of_ne_nil (by simp)
    obtain ⟨r, rs, hr⟩ : ∃ r rs, parts ++ [l] = r :: rs :=
      List.exists_cons_of_ne_nil (by simp)
    rw [List.cons_append, List.cons_append, hq, hr, List.intercalate_cons_cons,
      List.intercalate_cons_cons, ← hq, ← hr, ih]
    simp

/-- A joined part is no longer than the whole. -/
theorem length_le_intercalate {sep a : Text} {parts : List Text} (h : a ∈ parts) :
    a.length ≤ (sep.intercalate parts).length := by
  induction parts with
  | nil => simp at h
  | cons p parts ih =>
    cases parts with
    | nil => simp_all
    | cons q qs =>
      rw [List.intercalate_cons_cons, List.length_append, List.length_append]
      rcases List.mem_cons.mp h with rfl | h
      · omega
      · have := ih h
        omega

theorem Open.text_push (o : Open) (depth : Nat) (c : Char) :
    (o.push depth c).text = o.text ++ [c] := by
  simp only [Open.text, Open.push, List.reverse_cons, List.map_append, List.map_cons, List.map_nil,
    intercalate_grow, List.cons_append]

theorem Open.text_next (o : Open) : o.next.text = o.text ++ [','] := by
  simp [Open.text, Open.next, intercalate_next]

/-- A group that the scanner finds is what stands in the pattern. -/
theorem text_of_scan {read : Text} {o : Option Open} {p : Text} {g : Group}
    (h : scan read o p = some g) :
    g.text = read.reverse ++ o.elim [] Open.text ++ p := by
  fun_induction scan read o p with
  | case1 => simp at h
  | case2 read c rest ih => simp [ih h]
  | case3 read rest _ ih => simp [ih h, Open.text]
  | case4 read c rest _ hc ih => simp [ih h]
  | case5 read o c rest ih => simp [ih h, Open.text_push]
  | case6 read o rest _ ih => simp [ih h, Open.text_push]
  | case7 read o rest _ _ _ ih => simp [ih h, Open.text_push]
  | case8 read o rest _ he _ _ ih => simp [ih h, Open.text, he]
  | case9 read o rest =>
    obtain rfl := Option.some.inj h
    simp [Group.text, Open.text]
  | case10 read o c rest _ _ _ hc ih => simp [ih h, Open.text_next, hc.1]
  | case11 read o c rest _ _ _ _ ih => simp [ih h, Open.text_push]

/-- A group is what stands in the pattern. -/
theorem text_of_group? {p : Text} {g : Group} (h : group? p = some g) : g.text = p := by
  simpa using text_of_scan h

/-- A pattern with one alternative in place of the group is shorter. -/
theorem length_alternative_lt {p a : Text} {g : Group} (h : group? p = some g)
    (ha : a ∈ g.alternatives) : (g.before ++ a ++ g.after).length < p.length := by
  have : a.length ≤ ([','].intercalate g.alternatives).length := length_le_intercalate ha
  rw [← text_of_group? h, Group.text]
  simp only [List.length_append, List.length_cons]
  omega

/-- The patterns that a pattern stands for, in order. -/
def expand (p : Text) : List Text :=
  match _h : group? p with
  | none => [p]
  | some g => g.alternatives.attach.flatMap fun a => expand (g.before ++ a.1 ++ g.after)
termination_by p.length
decreasing_by exact length_alternative_lt _h a.2

/-- A pattern without a group stands for itself. -/
theorem expand_of_group?_eq_none {p : Text} (h : group? p = none) : expand p = [p] := by
  rw [expand]
  split
  · rfl
  · next h' => rw [h] at h'; simp at h'

end Restyle.Brace
