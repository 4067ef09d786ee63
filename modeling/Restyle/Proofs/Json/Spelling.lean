import Restyle.Proofs.Json.Grammar

/-!
# How Values Are Written

The texts that stand for a value, and that they are read.

One value can be written in many ways: blanks may stand around everything, and a character of a string
may be raw, escaped by a letter, or escaped by its number in one unit or in two. So writing is a relation.
It says of a text that it starts with a value, and what follows the value. Given what follows, nothing
has to be said about where a value ends when another thing comes after it, and texts are taken apart from
the front only, as they are by the scanner.

The relation is for texts, and for values without numbers and without strings that nobody can read. It is
the part of the grammar of documents that a writer keeps to, so what is written is read because the
grammar derives it.

## Main definitions

* `Blanks`: A text is blanks and then another.
* `Spells`: What stands behind a quote spells a text.
* `Writes`, `WritesItems`, `WritesMembers`: A text starts with a value.

## Theorems

* `Spells.quotes`: What is spelled has elements, and they are read as the text.
* `Writes.denotes`: What is written the grammar derives.
* `decodeText_writes`: A document is decoded by what is written in it.
-/

namespace Restyle.Json

/-- A text is blanks and then another one. -/
inductive Blanks : Text → Text → Prop where
  | none {rest : Text} : Blanks rest rest
  | blank {c : Char} {s rest : Text} (h : isSpace (.char c) = true) (more : Blanks s rest) :
      Blanks (c :: s) rest

/-- What stands behind an opening quote spells a text, up to the closing quote. -/
inductive Spells : Text → Text → Text → Prop where
  | close {rest : Text} : Spells ('"' :: rest) [] rest
  | raw {c : Char} {s t rest : Text} (quote : c ≠ '"') (backslash : c ≠ '\\')
      (printable : 0x20 ≤ c.toNat) (more : Spells s t rest) : Spells (c :: s) (c :: t) rest
  | letter {c e : Char} {s t rest : Text} (h : escaped? c = some e) (more : Spells s t rest) :
      Spells ('\\' :: c :: s) (e :: t) rest
  | unit {a b c d : Char} {unit : Nat} {s t rest : Text} (digits : IsUnit a b c d unit)
      (whole : unit < 0xD800 ∨ 0xE000 ≤ unit) (more : Spells s t rest) :
      Spells ('\\' :: 'u' :: a :: b :: c :: d :: s) (Char.ofNat unit :: t) rest
  | pair {a b c d a' b' c' d' : Char} {high low : Nat} {s t rest : Text}
      (first : IsUnit a b c d high) (second : IsUnit a' b' c' d' low)
      (isHigh : 0xD800 ≤ high ∧ high < 0xDC00) (isLow : 0xDC00 ≤ low ∧ low < 0xE000)
      (more : Spells s t rest) :
      Spells ('\\' :: 'u' :: a :: b :: c :: d :: '\\' :: 'u' :: a' :: b' :: c' :: d' :: s)
        (Char.ofNat ((high - 0xD800) * 0x400 + (low - 0xDC00) + 0x10000) :: t) rest

theorem Blanks.spaces {s rest : Text} (h : Blanks s rest) :
    Spaces (Source.ofText s) (Source.ofText rest) := by
  induction h with
  | none => exact .none
  | blank hc more ih => exact .blank hc ih

/-- What is spelled has elements, and they are read as the text. -/
theorem Spells.quotes {s t rest : Text} (h : Spells s t rest) :
    ∃ es, Quotes (Source.ofText s) es (Source.ofText rest) ∧ Element.text? es = some t := by
  induction h with
  | close => exact ⟨[], .close, rfl⟩
  | raw quote backslash printable more ih =>
      rcases ih with ⟨es, hes, ht⟩
      exact ⟨_, .raw quote backslash printable hes, by rw [Element.text?, ht]; rfl⟩
  | letter h more ih =>
      rcases ih with ⟨es, hes, ht⟩
      exact ⟨_, .letter h hes, by rw [Element.text?, ht]; rfl⟩
  | @unit a b c d n s t rest digits whole more ih =>
      rcases ih with ⟨es, hes, ht⟩
      have hhigh : ¬ Element.IsHigh n := by
        unfold Element.IsHigh
        omega
      have hlow : ¬ Element.IsLow n := by
        unfold Element.IsLow
        omega
      exact ⟨_, .unit digits hes, by rw [Element.text?_whole hhigh hlow, ht]; rfl⟩
  | pair first second isHigh isLow more ih =>
      rcases ih with ⟨es, hes, ht⟩
      exact ⟨_, .unit first (.unit second hes), by rw [Element.text?_pair isHigh isLow, ht]; rfl⟩

mutual

/-- A text starts with a value. What follows the value is given too. -/
inductive Writes : Text → Outline → Text → Prop where
  | null {rest : Text} : Writes ('n' :: 'u' :: 'l' :: 'l' :: rest) .null rest
  | yes {rest : Text} : Writes ('t' :: 'r' :: 'u' :: 'e' :: rest) (.bool true) rest
  | no {rest : Text} : Writes ('f' :: 'a' :: 'l' :: 's' :: 'e' :: rest) (.bool false) rest
  | string {s t rest : Text} (spelled : Spells s t rest) :
      Writes ('"' :: s) (.string (.whole t)) rest
  | emptyArray {s rest : Text} (blanks : Blanks s (']' :: rest)) :
      Writes ('[' :: s) (.array .close) rest
  | array {s s' rest : Text} {items : Items} (blanks : Blanks s s')
      (written : WritesItems s' items rest) : Writes ('[' :: s) (.array items) rest
  | emptyObject {s rest : Text} (blanks : Blanks s ('\x7d' :: rest)) :
      Writes ('\x7b' :: s) (.object .close) rest
  | object {s s' rest : Text} {members : Members} (blanks : Blanks s ('"' :: s'))
      (written : WritesMembers s' members rest) : Writes ('\x7b' :: s) (.object members) rest

/-- A text starts with the items of an array and the closing bracket. -/
inductive WritesItems : Text → Items → Text → Prop where
  | last {s s₁ rest : Text} {value : Outline} (written : Writes s value s₁)
      (behind : Blanks s₁ (']' :: rest)) : WritesItems s (.item value .close) rest
  | next {s s₁ s₂ s₃ rest : Text} {value : Outline} {items : Items} (written : Writes s value s₁)
      (behind : Blanks s₁ (',' :: s₂)) (before : Blanks s₂ s₃) (more : WritesItems s₃ items rest) :
      WritesItems s (.item value items) rest

/-- A text starts with the members of an object and the closing brace. The opening quote of the first
    name stands before it. -/
inductive WritesMembers : Text → Members → Text → Prop where
  | last {s s₁ s₂ s₃ s₄ name rest : Text} {value : Outline} (spelled : Spells s name s₁)
      (colon : Blanks s₁ (':' :: s₂)) (before : Blanks s₂ s₃) (written : Writes s₃ value s₄)
      (behind : Blanks s₄ ('\x7d' :: rest)) :
      WritesMembers s (.member (.whole name) value .close) rest
  | next {s s₁ s₂ s₃ s₄ s₅ s₆ name rest : Text} {value : Outline} {members : Members}
      (spelled : Spells s name s₁) (colon : Blanks s₁ (':' :: s₂)) (before : Blanks s₂ s₃)
      (written : Writes s₃ value s₄) (behind : Blanks s₄ (',' :: s₅))
      (quote : Blanks s₅ ('"' :: s₆)) (more : WritesMembers s₆ members rest) :
      WritesMembers s (.member (.whole name) value members) rest

end

mutual

/-- What is written the grammar derives. -/
theorem Writes.denotes {s rest : Text} {o : Outline} (h : Writes s o rest) :
    Denotes (Source.ofText s) o (Source.ofText rest) := by
  cases h with
  | null => exact .null
  | yes => exact .yes
  | no => exact .no
  | string spelled =>
      rcases spelled.quotes with ⟨es, hes, ht⟩
      exact Element.quoted_eq ht ▸ .string hes
  | emptyArray blanks => exact .emptyArray blanks.spaces
  | array blanks written => exact .array blanks.spaces written.denotes
  | emptyObject blanks => exact .emptyObject blanks.spaces
  | object blanks written => exact .object blanks.spaces written.denotes

theorem WritesItems.denotes {s rest : Text} {items : Items} (h : WritesItems s items rest) :
    DenotesItems (Source.ofText s) items (Source.ofText rest) := by
  cases h with
  | last written behind => exact .last written.denotes behind.spaces
  | next written behind before more =>
      exact .next written.denotes behind.spaces before.spaces more.denotes

theorem WritesMembers.denotes {s rest : Text} {members : Members} (h : WritesMembers s members rest) :
    DenotesMembers (Source.ofText s) members (Source.ofText rest) := by
  cases h with
  | last spelled colon before written behind =>
      rcases spelled.quotes with ⟨es, hes, ht⟩
      exact Element.quoted_eq ht ▸ .last hes colon.spaces before.spaces written.denotes behind.spaces
  | next spelled colon before written behind quote more =>
      rcases spelled.quotes with ⟨es, hes, ht⟩
      exact Element.quoted_eq ht ▸ .next hes colon.spaces before.spaces written.denotes
        behind.spaces quote.spaces more.denotes

end

/-- A document is decoded by what is written in it, whatever blanks stand around it. -/
theorem decodeText_writes {α : Type} {decoder : Decoder α} {s s' rest : Text} {o : Outline}
    (before : Blanks s s') (written : Writes s' o rest) (behind : Blanks rest []) :
    decodeText decoder s = decoder o := by
  have hdocument : Document (Source.ofText s) o :=
    ⟨_, _, before.spaces, written.denotes, behind.spaces⟩
  exact hdocument.decode_eq

end Restyle.Json
