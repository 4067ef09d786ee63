import Mathlib.Tactic.SplitIfs
import Restyle.Json.Printer
import Restyle.Proofs.Json.Spelling

/-!
# Printed Values

A value that is printed is written, and so it is what is read again.

Printing chooses one of the ways to write a value. A character that cannot stand raw has a letter or is
one unit. Blanks are put before each part of a container, before what closes it, and behind a colon, and
the two printers differ in nothing but these blanks. So `Prints` says what any such printer does, and the
proof is about all of them. What closes a container is taken together with its last part, so the induction
is on the parts that are left.

## Main definitions

* `form`: The outline of a value.
* `numberless`: Whether there is no number in a value.
* `Prints`: A way of printing, up to blanks.

## Theorems

* `spells_quote`: A text in quotes is spelled.
* `Prints.writes`: A value is written as it is printed.
* `prints_indented`, `prints_compact`: The two ways of printing.
* `decodeText_pretty`: A printed document is decoded as its value.
-/

namespace Restyle.Json

mutual

/-- The outline of a value. -/
def form : Json → Outline
  | .null => .null
  | .bool b => .bool b
  | .number n => .number (some n)
  | .string t => .string (.whole t)
  | .array items => .array (itemForms items)
  | .object members => .object (memberForms members)

/-- The outlines of the items of an array. -/
def itemForms : List Json → Items
  | [] => .close
  | j :: js => .item (form j) (itemForms js)

/-- The outlines of the members of an object. -/
def memberForms : List (Text × Json) → Members
  | [] => .close
  | (name, j) :: js => .member (.whole name) (form j) (memberForms js)

end

mutual

/-- Whether there is no number in a value. -/
def numberless : Json → Bool
  | .number _ => false
  | .array items => itemsNumberless items
  | .object members => membersNumberless members
  | _ => true

/-- Whether there is no number in the items of an array. -/
def itemsNumberless : List Json → Bool
  | [] => true
  | j :: js => numberless j && itemsNumberless js

/-- Whether there is no number in the members of an object. -/
def membersNumberless : List (Text × Json) → Bool
  | [] => true
  | (_, j) :: js => numberless j && membersNumberless js

end

theorem hexValue?_hexDigit {n : Nat} (h : n < 16) : hexValue? (hexDigit n) = some n := by
  have hall : ∀ n < 16, hexValue? (hexDigit n) = some n := by decide
  exact hall n h

/-- A character that is quoted is spelled. -/
theorem spells_quoteChar (c : Char) {s t rest : Text} (more : Spells s t rest) :
    Spells (quoteChar c ++ s) (c :: t) rest := by
  unfold quoteChar
  by_cases hquote : c = '"'
  · rw [if_pos hquote, hquote]
    exact .letter rfl more
  rw [if_neg hquote]
  by_cases hbackslash : c = '\\'
  · rw [if_pos hbackslash, hbackslash]
    exact .letter rfl more
  rw [if_neg hbackslash]
  by_cases hprintable : 0x20 ≤ c.toNat
  · rw [if_pos hprintable]
    exact .raw hquote hbackslash hprintable more
  rw [if_neg hprintable]
  split_ifs with hb hf hn hr ht
  · rw [hb]; exact .letter rfl more
  · rw [hf]; exact .letter rfl more
  · rw [hn]; exact .letter rfl more
  · rw [hr]; exact .letter rfl more
  · rw [ht]; exact .letter rfl more
  · -- What is left is below a space, so two digits are enough and the others are zero.
    have hunit : IsUnit '0' '0' (hexDigit (c.toNat / 16)) (hexDigit (c.toNat % 16)) c.toNat :=
      ⟨0, 0, _, _, rfl, rfl, hexValue?_hexDigit (by omega), hexValue?_hexDigit (by omega), by omega⟩
    have hspells := Spells.unit hunit (.inl (by omega)) more
    rwa [Char.ofNat_toNat] at hspells

/-- A text in quotes is spelled behind the opening one. -/
theorem spells_quote (t rest : Text) : Spells (t.flatMap quoteChar ++ '"' :: rest) t rest := by
  induction t with
  | nil => exact .close
  | cons c t ih =>
      rw [List.flatMap_cons, List.append_assoc]
      exact spells_quoteChar c ih

theorem quote_append (t rest : Text) :
    quote t ++ rest = '"' :: (t.flatMap quoteChar ++ '"' :: rest) := by
  simp [quote]

theorem blanks_newline (indent : Nat) (rest : Text) : Blanks (newline indent ++ rest) rest := by
  have hspaces : ∀ n, Blanks (List.replicate n ' ' ++ rest) rest := by
    intro n
    induction n with
    | zero => exact .none
    | succ n ih => exact .blank (by decide) ih
  exact .blank (by decide) (hspaces _)

/-! ### Printing up to blanks -/

/-- Parts between brackets, with one gap before each part and another before the closing bracket. -/
def separated (opening closing : Char) (gap last : Text) (parts : List Text) : Text :=
  opening :: (gap ++ ((',' :: gap).intercalate parts ++ (last ++ [closing])))

/-- A member as it is printed, with some space behind the colon. -/
def member (space name value : Text) : Text :=
  quote name ++ ':' :: (space ++ value)

/-- A way of printing that is free in its blanks only. They make up the gap before each part of a
    container and before what closes it, which depends on the indentation, and the space behind a
    colon. -/
structure Prints (print : Nat → Json → Text) (gap : Nat → Text) (space : Text) : Prop where
  blanks_gap : ∀ n rest, Blanks (gap n ++ rest) rest
  blanks_space : ∀ rest, Blanks (space ++ rest) rest
  null : ∀ n, print n .null = ['n', 'u', 'l', 'l']
  yes : ∀ n, print n (.bool true) = ['t', 'r', 'u', 'e']
  no : ∀ n, print n (.bool false) = ['f', 'a', 'l', 's', 'e']
  string : ∀ n t, print n (.string t) = quote t
  emptyArray : ∀ n, print n (.array []) = ['[', ']']
  array : ∀ n j js, print n (.array (j :: js)) =
    separated '[' ']' (gap (n + 1)) (gap n) ((j :: js).map (print (n + 1)))
  emptyObject : ∀ n, print n (.object []) = ['\x7b', '\x7d']
  object : ∀ n m ms, print n (.object (m :: ms)) =
    separated '\x7b' '\x7d' (gap (n + 1)) (gap n)
      ((m :: ms).map fun m => member space m.1 (print (n + 1) m.2))

theorem intercalate_cons_append {sep x y : Text} {xs : List Text} (rest : Text) :
    sep.intercalate (x :: y :: xs) ++ rest = x ++ (sep ++ (sep.intercalate (y :: xs) ++ rest)) := by
  rw [List.intercalate_cons_of_ne_nil (List.cons_ne_nil y xs)]
  simp only [List.append_assoc]

theorem separated_append (opening closing : Char) (gap last : Text) (parts : List Text)
    (rest : Text) :
    separated opening closing gap last parts ++ rest =
      opening :: (gap ++ ((',' :: gap).intercalate parts ++ (last ++ closing :: rest))) := by
  simp only [separated, List.cons_append, List.append_assoc, List.nil_append]

/-- A printed member, behind its opening quote. -/
theorem member_append (space name value rest : Text) :
    member space name value ++ rest =
      '"' :: (name.flatMap quoteChar ++ '"' :: ':' :: (space ++ (value ++ rest))) := by
  rw [member, List.append_assoc, quote_append, List.cons_append, List.append_assoc]

section Printers

variable {print : Nat → Json → Text} {gap : Nat → Text} {space : Text}

mutual

/-- A value is written as it is printed, at any indentation. -/
theorem Prints.writes (h : Prints print gap space) : ∀ (j : Json), j.numberless = true →
    ∀ (n : Nat) (rest : Text), Writes (print n j ++ rest) j.form rest
  | .null, _, n, _ => by
      rw [h.null]
      exact .null
  | .bool false, _, n, _ => by
      rw [h.no]
      exact .no
  | .bool true, _, n, _ => by
      rw [h.yes]
      exact .yes
  | .number _, hnumber, _, _ => nomatch hnumber
  | .string t, _, n, rest => by
      rw [h.string, quote_append]
      exact .string (spells_quote t rest)
  | .array [], _, n, _ => by
      rw [h.emptyArray]
      exact .emptyArray .none
  | .array (j :: js), hnumber, n, rest => by
      rw [h.array, separated_append]
      exact .array (h.blanks_gap (n + 1) _)
        (h.writesItems (j :: js) (List.cons_ne_nil j js) hnumber n rest)
  | .object [], _, n, _ => by
      rw [h.emptyObject]
      exact .emptyObject .none
  | .object (m :: ms), hnumber, n, rest => by
      obtain ⟨s, hs, hwritten⟩ :=
        h.writesMembers (m :: ms) (List.cons_ne_nil m ms) hnumber n rest
      rw [h.object, separated_append, hs]
      exact .object (h.blanks_gap (n + 1) _) hwritten

/-- The items of an array are written as they are printed, with what closes the array. -/
theorem Prints.writesItems (h : Prints print gap space) : ∀ items : List Json, items ≠ [] →
    itemsNumberless items = true → ∀ (n : Nat) (rest : Text),
    WritesItems ((',' :: gap (n + 1)).intercalate (items.map (print (n + 1))) ++
      (gap n ++ ']' :: rest)) (itemForms items) rest
  | [], hne, _, _, _ => absurd rfl hne
  | [j], _, hnumber, n, rest => by
      simp only [itemsNumberless, Bool.and_eq_true] at hnumber
      rw [List.map_singleton, List.intercalate_singleton]
      exact .last (h.writes j hnumber.1 (n + 1) _) (h.blanks_gap n _)
  | j :: k :: js, _, hnumber, n, rest => by
      rw [itemsNumberless, Bool.and_eq_true] at hnumber
      rw [List.map_cons, List.map_cons, intercalate_cons_append, ← List.map_cons]
      exact .next (h.writes j hnumber.1 (n + 1) _) .none (h.blanks_gap (n + 1) _)
        (h.writesItems (k :: js) (List.cons_ne_nil k js) hnumber.2 n rest)

/-- The members of an object are written as they are printed, with what closes the object. -/
theorem Prints.writesMembers (h : Prints print gap space) : ∀ members : List (Text × Json),
    members ≠ [] → membersNumberless members = true → ∀ (n : Nat) (rest : Text),
    ∃ s, (',' :: gap (n + 1)).intercalate
          (members.map fun m => member space m.1 (print (n + 1) m.2)) ++
        (gap n ++ '\x7d' :: rest) = '"' :: s ∧
      WritesMembers s (memberForms members) rest
  | [], hne, _, _, _ => absurd rfl hne
  | [(name, j)], _, hnumber, n, rest => by
      simp only [membersNumberless, Bool.and_eq_true] at hnumber
      rw [List.map_singleton, List.intercalate_singleton, member_append]
      exact ⟨_, rfl, .last (spells_quote name _) .none (h.blanks_space _)
        (h.writes j hnumber.1 (n + 1) _) (h.blanks_gap n _)⟩
  | (name, j) :: m :: ms, _, hnumber, n, rest => by
      rw [membersNumberless, Bool.and_eq_true] at hnumber
      obtain ⟨s, hs, hwritten⟩ :=
        h.writesMembers (m :: ms) (List.cons_ne_nil m ms) hnumber.2 n rest
      rw [List.map_cons] at hs
      rw [List.map_cons, List.map_cons, intercalate_cons_append, member_append]
      refine ⟨_, rfl, .next (spells_quote name _) .none (h.blanks_space _)
        (h.writes j hnumber.1 (n + 1) _) .none ?_ hwritten⟩
      rw [hs]
      exact h.blanks_gap (n + 1) _

end

end Printers

/-! ### The two ways of printing -/

theorem indentedItems_eq_map (n : Nat) (items : List Json) :
    indentedItems n items = items.map (indented n) := by
  induction items with
  | nil => rfl
  | cons j js ih => rw [indentedItems, ih, List.map_cons]

theorem indentedMembers_eq_map (n : Nat) (members : List (Text × Json)) :
    indentedMembers n members = members.map fun m => member [' '] m.1 (indented n m.2) := by
  induction members with
  | nil => rfl
  | cons m ms ih =>
      rw [indentedMembers, ih, List.map_cons]
      rfl

theorem lineSeparated_cons (opening closing : Char) (n : Nat) (part : Text) (parts : List Text) :
    lineSeparated opening closing n (part :: parts) =
      separated opening closing (newline (n + 1)) (newline n) (part :: parts) := by
  simp only [lineSeparated, separated, if_neg (List.cons_ne_nil part parts), List.cons_append,
    List.append_assoc]

theorem prints_indented : Prints indented newline [' '] where
  blanks_gap := blanks_newline
  blanks_space _ := .blank (by decide) .none
  null _ := rfl
  yes _ := rfl
  no _ := rfl
  string _ _ := rfl
  emptyArray _ := rfl
  array n j js := by rw [indented, indentedItems_eq_map, List.map_cons, lineSeparated_cons]
  emptyObject _ := rfl
  object n m ms := by rw [indented, indentedMembers_eq_map, List.map_cons, lineSeparated_cons]

theorem compactItems_eq_map (items : List Json) : compactItems items = items.map compact := by
  induction items with
  | nil => rfl
  | cons j js ih => rw [compactItems, ih, List.map_cons]

theorem compactMembers_eq_map (members : List (Text × Json)) :
    compactMembers members = members.map fun m => member [] m.1 (compact m.2) := by
  induction members with
  | nil => rfl
  | cons m ms ih =>
      rw [compactMembers, ih, List.map_cons]
      rfl

theorem commaSeparated_eq (opening closing : Char) (parts : List Text) :
    commaSeparated opening closing parts = separated opening closing [] [] parts := by
  simp only [commaSeparated, separated, List.cons_append, List.nil_append]

theorem prints_compact : Prints (fun _ => compact) (fun _ => []) [] where
  blanks_gap _ _ := .none
  blanks_space _ := .none
  null _ := rfl
  yes _ := rfl
  no _ := rfl
  string _ _ := rfl
  emptyArray _ := rfl
  array n j js := by rw [compact, compactItems_eq_map, commaSeparated_eq]
  emptyObject _ := rfl
  object n m ms := by rw [compact, compactMembers_eq_map, commaSeparated_eq]

/-- A printed document is decoded as the value that it was printed from. -/
theorem decodeText_pretty {α : Type} (decoder : Decoder α) {j : Json} (h : j.numberless = true)
    {behind : Text} (hbehind : Blanks behind []) :
    decodeText decoder (j.pretty ++ behind) = decoder j.form :=
  decodeText_writes .none (prints_indented.writes j h 0 behind) hbehind

end Restyle.Json
