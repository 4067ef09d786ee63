import Restyle.Json.Decode
import Restyle.Proofs.Json.Numbers
import Restyle.Proofs.Json.Strings

/-!
# The Grammar of Documents

What a JSON document is, as a relation that does not mention the scanner, and that the scanner accepts
the documents and nothing else.

The relation says of a source that it starts with a value, and what follows the value. It is the grammar
of JSON read over pieces, so it gives every value its outline, and an outline that it gives has no faults.
In the other direction a scan may end in a fault, which is found by passing over the outline: a scan is
sound if the outline can be passed over.

The scanner counts down. A scan that runs out is at fault, so soundness asks nothing of the count. That
what is written is scanned is said for every count that is high enough. Twice the number of pieces is,
because every step that nests takes a piece and two from the count.

## Main definitions

* `Spaces`: Pieces are blanks and then others.
* `Denotes`, `DenotesItems`, `DenotesMembers`: A source starts with a value.
* `Document`: A source is one value with blanks around it.

## Theorems

* `scanValue_denotes`: What the grammar derives is scanned.
* `denotes_of_scanValue`: What is scanned without a fault the grammar derives.
* `decode_eq_ok_iff`: A document is decoded by its outline.
-/

namespace Restyle.Json

open Utf8 (Piece)

/-! ### Blanks -/

/-- Pieces are blanks and then others. -/
inductive Spaces : Source → Source → Prop where
  | none {rest : Source} : Spaces rest rest
  | blank {p : Piece} {s rest : Source} (h : isSpace p = true) (more : Spaces s rest) :
      Spaces (p :: s) rest

theorem Spaces.skipSpace_eq {s rest : Source} (h : Spaces s rest) : skipSpace s = skipSpace rest := by
  induction h with
  | none => rfl
  | blank hp more ih => rw [skipSpace, List.dropWhile_cons_of_pos hp, ← ih]; rfl

theorem spaces_skipSpace (s : Source) : Spaces s (skipSpace s) := by
  induction s with
  | nil => exact .none
  | cons p s ih =>
      rw [skipSpace]
      by_cases hp : isSpace p = true
      · rw [List.dropWhile_cons_of_pos hp]
        exact .blank hp ih
      · rw [List.dropWhile_cons_of_neg hp]
        exact .none

theorem Spaces.trans {s s' s'' : Source} (h : Spaces s s') (h' : Spaces s' s'') : Spaces s s'' := by
  induction h with
  | none => exact h'
  | blank hp more ih => exact .blank hp (ih h')

theorem Spaces.length_le {s rest : Source} (h : Spaces s rest) : rest.length ≤ s.length := by
  induction h with
  | none => exact Nat.le_refl _
  | blank hp more ih => exact Nat.le_succ_of_le ih

/-- What stands behind blanks, if it is no blank itself. -/
theorem Spaces.skipSpace_cons {s rest : Source} {p : Piece} (h : Spaces s (p :: rest))
    (hp : isSpace p = false) : skipSpace s = p :: rest := by
  rw [h.skipSpace_eq, skipSpace, List.dropWhile_cons_of_neg (by simp [hp])]

theorem spaces_of_skipSpace_eq {s rest : Source} (h : skipSpace s = rest) : Spaces s rest :=
  h ▸ spaces_skipSpace s

theorem isSpace_of_skipSpace_eq {s rest : Source} {p : Piece} (h : skipSpace s = p :: rest) :
    isSpace p = false := by
  have hnot := List.head?_dropWhile_not isSpace s
  rw [skipSpace] at h
  rw [h] at hnot
  simpa using hnot

/-! ### Values -/

mutual

/-- A source starts with a value. What follows the value is given too. -/
inductive Denotes : Source → Outline → Source → Prop where
  | null {rest : Source} :
      Denotes (.char 'n' :: .char 'u' :: .char 'l' :: .char 'l' :: rest) .null rest
  | yes {rest : Source} :
      Denotes (.char 't' :: .char 'r' :: .char 'u' :: .char 'e' :: rest) (.bool true) rest
  | no {rest : Source} :
      Denotes (.char 'f' :: .char 'a' :: .char 'l' :: .char 's' :: .char 'e' :: rest) (.bool false)
        rest
  | number {s rest : Source} {l : Literal} (numeral : Numeral false s l rest) :
      Denotes s (.number l.number?) rest
  | negative {s rest : Source} {l : Literal} (numeral : Numeral true s l rest) :
      Denotes (.char '-' :: s) (.number l.number?) rest
  | string {s rest : Source} {es : List Element} (quotes : Quotes s es rest) :
      Denotes (.char '"' :: s) (.string (Element.quoted es)) rest
  | emptyArray {s rest : Source} (spaces : Spaces s (.char ']' :: rest)) :
      Denotes (.char '[' :: s) (.array .close) rest
  | array {s s' rest : Source} {items : Items} (spaces : Spaces s s')
      (denoted : DenotesItems s' items rest) : Denotes (.char '[' :: s) (.array items) rest
  | emptyObject {s rest : Source} (spaces : Spaces s (.char '\x7d' :: rest)) :
      Denotes (.char '\x7b' :: s) (.object .close) rest
  | object {s s' rest : Source} {members : Members} (spaces : Spaces s (.char '"' :: s'))
      (denoted : DenotesMembers s' members rest) : Denotes (.char '\x7b' :: s) (.object members) rest

/-- A source starts with the items of an array and the closing bracket. -/
inductive DenotesItems : Source → Items → Source → Prop where
  | last {s s₁ rest : Source} {value : Outline} (denoted : Denotes s value s₁)
      (behind : Spaces s₁ (.char ']' :: rest)) : DenotesItems s (.item value .close) rest
  | next {s s₁ s₂ s₃ rest : Source} {value : Outline} {items : Items} (denoted : Denotes s value s₁)
      (behind : Spaces s₁ (.char ',' :: s₂)) (before : Spaces s₂ s₃)
      (more : DenotesItems s₃ items rest) : DenotesItems s (.item value items) rest

/-- A source starts with the members of an object and the closing brace. The opening quote of the first
    name stands before it. -/
inductive DenotesMembers : Source → Members → Source → Prop where
  | last {s s₁ s₂ s₃ s₄ rest : Source} {name : List Element} {value : Outline}
      (quotes : Quotes s name s₁) (colon : Spaces s₁ (.char ':' :: s₂)) (before : Spaces s₂ s₃)
      (denoted : Denotes s₃ value s₄) (behind : Spaces s₄ (.char '\x7d' :: rest)) :
      DenotesMembers s (.member (Element.quoted name) value .close) rest
  | next {s s₁ s₂ s₃ s₄ s₅ s₆ rest : Source} {name : List Element} {value : Outline}
      {members : Members} (quotes : Quotes s name s₁) (colon : Spaces s₁ (.char ':' :: s₂))
      (before : Spaces s₂ s₃) (denoted : Denotes s₃ value s₄) (behind : Spaces s₄ (.char ',' :: s₅))
      (quote : Spaces s₅ (.char '"' :: s₆)) (more : DenotesMembers s₆ members rest) :
      DenotesMembers s (.member (Element.quoted name) value members) rest

end

/-- A source is one value with nothing but blanks around it. -/
def Document (s : Source) (o : Outline) : Prop :=
  ∃ s' rest, Spaces s s' ∧ Denotes s' o rest ∧ Spaces rest []

/-! ### What is denoted is scanned -/

theorem scanName_append (value : Outline) (name : Text) (s : Source) :
    scanName value name (Source.ofText name ++ s) = (value, s) := by
  induction name with
  | nil => rfl
  | cons c name ih =>
      rw [Source.ofText, List.map_cons, List.cons_append, scanName, if_pos rfl]
      exact ih

theorem not_isSpace_of_digit {c : Char} {d : Nat} (h : digit? (.char c) = some d) :
    isSpace (.char c) = false := by
  cases hspace : isSpace (.char c) with
  | false => rfl
  | true =>
      simp only [isSpace, Bool.or_eq_true, beq_iff_eq] at hspace
      rcases hspace with ((rfl | rfl) | rfl) | rfl
      all_goals exact nomatch h

/-- A value starts with a piece of its own. -/
theorem Denotes.exists_head {s rest : Source} {o : Outline} (h : Denotes s o rest) :
    ∃ p s', s = p :: s' ∧ isSpace p = false ∧ p ≠ .char ']' := by
  cases h with
  | number numeral =>
      rcases numeral.exists_head with ⟨c, d, s, rfl, hd⟩
      refine ⟨_, _, rfl, not_isSpace_of_digit hd, ?_⟩
      rintro ⟨⟩
      exact nomatch hd
  | _ => exact ⟨_, _, rfl, rfl, by decide⟩

theorem DenotesItems.exists_head {s rest : Source} {items : Items} (h : DenotesItems s items rest) :
    ∃ p s', s = p :: s' ∧ isSpace p = false ∧ p ≠ .char ']' := by
  cases h with
  | last denoted => exact denoted.exists_head
  | next denoted => exact denoted.exists_head

mutual

theorem Denotes.length_lt {s rest : Source} {o : Outline} (h : Denotes s o rest) :
    rest.length < s.length := by
  cases h with
  | number numeral => exact numeral.length_lt
  | negative numeral => exact Nat.lt_succ_of_lt numeral.length_lt
  | string quotes => exact Nat.lt_succ_of_lt quotes.length_lt
  | emptyArray spaces => exact Nat.lt_succ_of_le (Nat.le_of_succ_le spaces.length_le)
  | array spaces denoted =>
      exact Nat.lt_succ_of_lt (Nat.lt_of_lt_of_le denoted.length_lt spaces.length_le)
  | emptyObject spaces => exact Nat.lt_succ_of_le (Nat.le_of_succ_le spaces.length_le)
  | object spaces denoted =>
      have hspaces := spaces.length_le
      have hmembers := denoted.length_lt
      simp only [List.length_cons] at hspaces ⊢
      omega
  | _ => simp only [List.length_cons]; omega

theorem DenotesItems.length_lt {s rest : Source} {items : Items} (h : DenotesItems s items rest) :
    rest.length < s.length := by
  cases h with
  | last denoted behind =>
      have hvalue := denoted.length_lt
      have hbehind := behind.length_le
      simp only [List.length_cons] at hbehind
      omega
  | next denoted behind before more =>
      have hvalue := denoted.length_lt
      have hbehind := behind.length_le
      have hbefore := before.length_le
      have hmore := more.length_lt
      simp only [List.length_cons] at hbehind
      omega

theorem DenotesMembers.length_lt {s rest : Source} {members : Members}
    (h : DenotesMembers s members rest) : rest.length < s.length := by
  cases h with
  | last quotes colon before denoted behind =>
      have hquotes := quotes.length_lt
      have hcolon := colon.length_le
      have hbefore := before.length_le
      have hvalue := denoted.length_lt
      have hbehind := behind.length_le
      simp only [List.length_cons] at hcolon hbehind
      omega
  | next quotes colon before denoted behind quote more =>
      have hquotes := quotes.length_lt
      have hcolon := colon.length_le
      have hbefore := before.length_le
      have hvalue := denoted.length_lt
      have hbehind := behind.length_le
      have hquote := quote.length_le
      have hmore := more.length_lt
      simp only [List.length_cons] at hcolon hbehind hquote
      omega

end

theorem delimits_cons {c : Char} (h : isSpace (.char c) = true ∨ c ∈ [',', ']', '\x7d'])
    (s : Source) : Delimits (.char c :: s) := by
  rintro p ⟨⟩
  simp only [isSpace, Bool.or_eq_true, beq_iff_eq, List.mem_cons, List.not_mem_nil, or_false] at h
  rcases h with (((rfl | rfl) | rfl) | rfl) | rfl | rfl | rfl
  all_goals exact ⟨rfl, by decide, by decide, by decide⟩

/-- Blanks and what may follow a value do not go on with a number. -/
theorem Spaces.delimits {s s' : Source} (h : Spaces s s') (h' : Delimits s') : Delimits s := by
  cases h with
  | none => exact h'
  | @blank p s _ hp more =>
      cases p with
      | char c => exact delimits_cons (.inl hp) s
      | gap bytes => exact nomatch hp

theorem scanValue_spaces {s s' : Source} (h : Spaces s s') (fuel : Nat) :
    scanValue fuel s = scanValue fuel s' := by
  cases fuel with
  | zero => rfl
  | succ fuel => rw [scanValue, scanValue, h.skipSpace_eq]

theorem scanItems_spaces {s s' : Source} (h : Spaces s s') (fuel : Nat) :
    scanItems fuel s = scanItems fuel s' := by
  cases fuel with
  | zero => rfl
  | succ fuel => rw [scanItems, scanItems, scanValue_spaces h]

theorem skipSpace_cons {p : Piece} (h : isSpace p = false) (s : Source) :
    skipSpace (p :: s) = p :: s :=
  Spaces.none.skipSpace_cons h

theorem scanValue_digit {c : Char} {d : Nat} (hd : digit? (.char c) = some d) (fuel : Nat)
    (s : Source) : scanValue (fuel + 1) (.char c :: s) = scanNumber false (.char c :: s) := by
  rw [scanValue, skipSpace_cons (not_isSpace_of_digit hd)]
  split
  · next heq => exact nomatch heq
  · next heq => exact nomatch heq
  · next heq =>
      cases heq
      -- No other value starts with a digit.
      split
      iterate 7 exact nomatch hd
      exact if_pos (by rw [hd]; rfl)

mutual

/-- A value that is denoted is scanned. -/
theorem scanValue_denotes {s rest : Source} {o : Outline} (h : Denotes s o rest)
    (hrest : Delimits rest) (fuel : Nat) (hfuel : 2 * s.length ≤ fuel) :
    scanValue fuel s = (o, rest) := by
  obtain ⟨fuel, rfl⟩ : ∃ n, fuel = n + 1 := ⟨fuel - 1, by have := h.length_lt; omega⟩
  cases h with
  | null =>
      rw [scanValue, skipSpace_cons rfl]
      exact scanName_append .null ['u', 'l', 'l'] rest
  | yes =>
      rw [scanValue, skipSpace_cons rfl]
      exact scanName_append (.bool true) ['r', 'u', 'e'] rest
  | no =>
      rw [scanValue, skipSpace_cons rfl]
      exact scanName_append (.bool false) ['a', 'l', 's', 'e'] rest
  | number numeral =>
      rcases numeral.exists_head with ⟨c, d, s, rfl, hd⟩
      rw [scanValue_digit hd, scanNumber_numeral numeral hrest]
  | negative numeral =>
      rw [scanValue, skipSpace_cons rfl]
      exact scanNumber_numeral numeral hrest
  | string quotes =>
      rw [scanValue, skipSpace_cons rfl]
      simp only [scanString_quotes quotes {} rfl, Element.close_foldl_quoted]
  | emptyArray spaces =>
      rw [scanValue, skipSpace_cons rfl]
      simp only [spaces.skipSpace_cons rfl]
  | @array s s' _ items spaces denoted =>
      have hlength := spaces.length_le
      rw [List.length_cons] at hfuel
      have hitems := scanItems_denotes denoted fuel (by omega)
      rcases denoted.exists_head with ⟨p, s'', rfl, hspace, hclose⟩
      have hskip := spaces.skipSpace_cons hspace
      rw [scanValue, skipSpace_cons rfl]
      simp only [hskip]
      -- The scanner looks whether the array ends at once before it takes an item.
      split
      · next heq => exact nomatch heq
      · next heq => exact absurd (List.cons.inj heq).1 hclose
      · rw [hitems]
  | emptyObject spaces =>
      rw [scanValue, skipSpace_cons rfl]
      simp only [spaces.skipSpace_cons rfl]
  | object spaces denoted =>
      have hlength := spaces.length_le
      rw [List.length_cons] at hfuel hlength
      have hmembers := scanMembers_denotes denoted fuel (by omega)
      rw [scanValue, skipSpace_cons rfl]
      simp only [spaces.skipSpace_cons rfl, hmembers]

theorem scanItems_denotes {s rest : Source} {items : Items} (h : DenotesItems s items rest)
    (fuel : Nat) (hfuel : 2 * s.length + 1 ≤ fuel) : scanItems fuel s = (items, rest) := by
  obtain ⟨fuel, rfl⟩ : ∃ n, fuel = n + 1 := ⟨fuel - 1, by omega⟩
  cases h with
  | last denoted behind =>
      have hvalue := scanValue_denotes denoted (behind.delimits (delimits_cons (by simp) _)) fuel
        (by omega)
      rw [scanItems, hvalue]
      simp only [behind.skipSpace_cons rfl]
  | next denoted behind before more =>
      have hvalue := scanValue_denotes denoted (behind.delimits (delimits_cons (by simp) _)) fuel
        (by omega)
      have hdenoted := denoted.length_lt
      have hbehind := behind.length_le
      have hbefore := before.length_le
      rw [List.length_cons] at hbehind
      have hmore := scanItems_denotes more fuel (by omega)
      rw [scanItems, hvalue]
      simp only [behind.skipSpace_cons rfl, scanItems_spaces before, hmore]

theorem scanMembers_denotes {s rest : Source} {members : Members} (h : DenotesMembers s members rest)
    (fuel : Nat) (hfuel : 2 * s.length + 1 ≤ fuel) : scanMembers fuel s = (members, rest) := by
  obtain ⟨fuel, rfl⟩ : ∃ n, fuel = n + 1 := ⟨fuel - 1, by omega⟩
  cases h with
  | last quotes colon before denoted behind =>
      have hquotes := quotes.length_lt
      have hcolon := colon.length_le
      have hbefore := before.length_le
      rw [List.length_cons] at hcolon
      have hvalue := scanValue_denotes denoted (behind.delimits (delimits_cons (by simp) _)) fuel
        (by omega)
      rw [scanMembers, scanString_quotes quotes {} rfl, Element.close_foldl_quoted]
      simp only [colon.skipSpace_cons rfl, scanValue_spaces before, hvalue,
        behind.skipSpace_cons rfl]
  | next quotes colon before denoted behind quote more =>
      have hquotes := quotes.length_lt
      have hcolon := colon.length_le
      have hbefore := before.length_le
      have hdenoted := denoted.length_lt
      have hbehind := behind.length_le
      have hquote := quote.length_le
      rw [List.length_cons] at hcolon hbehind hquote
      have hvalue := scanValue_denotes denoted (behind.delimits (delimits_cons (by simp) _)) fuel
        (by omega)
      have hmore := scanMembers_denotes more fuel (by omega)
      rw [scanMembers, scanString_quotes quotes {} rfl, Element.close_foldl_quoted]
      simp only [colon.skipSpace_cons rfl, scanValue_spaces before, hvalue,
        behind.skipSpace_cons rfl, quote.skipSpace_cons rfl, hmore]

end

/-! ### What is scanned is denoted -/

theorem append_of_scanName {value o : Outline} {name : Text} {s rest : Source}
    (h : scanName value name s = (o, rest)) (ho : o.skim = .ok ()) :
    s = Source.ofText name ++ rest ∧ o = value := by
  induction name generalizing s with
  | nil =>
      cases h
      exact ⟨rfl, rfl⟩
  | cons c name ih =>
      cases s with
      | nil =>
          cases h
          exact nomatch ho
      | cons p s =>
          rw [scanName] at h
          split at h
          · next hp =>
              rcases ih h with ⟨rfl, rfl⟩
              exact ⟨by rw [hp]; rfl, rfl⟩
          · cases h
            exact nomatch ho

/-- Three statements about one count, proved together. -/
structure ScansSoundly (fuel : Nat) : Prop where
  value : ∀ {s rest : Source} {o : Outline}, scanValue fuel s = (o, rest) → o.skim = .ok () →
    ∃ s', Spaces s s' ∧ Denotes s' o rest
  items : ∀ {s rest : Source} {items : Items}, scanItems fuel s = (items, rest) →
    items.skim = .ok () → ∃ s', Spaces s s' ∧ DenotesItems s' items rest
  members : ∀ {s rest : Source} {members : Members}, scanMembers fuel s = (members, rest) →
    members.skim = .ok () → DenotesMembers s members rest

theorem Items.skim_item {value : Outline} {rest : Items} :
    (Items.item value rest).skim = .ok () ↔ value.skim = .ok () ∧ rest.skim = .ok () := by
  rw [Items.skim]
  cases value.skim <;> simp [bind, Except.bind]

theorem Members.skim_member {key : Quoted} {value : Outline} {rest : Members} :
    (Members.member key value rest).skim = .ok () ↔
      key.skim = .ok () ∧ value.skim = .ok () ∧ rest.skim = .ok () := by
  rw [Members.skim]
  cases key.skim <;> cases value.skim <;> simp [bind, Except.bind]

theorem denotesItems_of_scanItems {fuel : Nat} (ih : ScansSoundly fuel) {s rest : Source}
    {items : Items} (h : scanItems (fuel + 1) s = (items, rest)) (hitems : items.skim = .ok ()) :
    ∃ s', Spaces s s' ∧ DenotesItems s' items rest := by
  rw [scanItems] at h
  generalize hvalue : scanValue fuel s = scanned at h
  rcases scanned with ⟨value, s₁⟩
  dsimp only at h
  split at h
  · cases h
    exact nomatch (Items.skim_item.mp hitems).2
  · next after hclose =>
      cases h
      rcases ih.value hvalue (Items.skim_item.mp hitems).1 with ⟨s', hs, hdenotes⟩
      exact ⟨s', hs, .last hdenotes (spaces_of_skipSpace_eq hclose)⟩
  · next s₂ hcomma =>
      generalize hmore : scanItems fuel s₂ = scanned at h
      rcases scanned with ⟨more, after⟩
      cases h
      rcases Items.skim_item.mp hitems with ⟨hskim, hskim'⟩
      rcases ih.value hvalue hskim with ⟨s', hs, hdenotes⟩
      rcases ih.items hmore hskim' with ⟨s₃, hs₃, hdenotes'⟩
      exact ⟨s', hs, .next hdenotes (spaces_of_skipSpace_eq hcomma) hs₃ hdenotes'⟩
  · cases h
    exact nomatch (Items.skim_item.mp hitems).2

theorem denotesMembers_of_scanMembers {fuel : Nat} (ih : ScansSoundly fuel) {s rest : Source}
    {members : Members} (h : scanMembers (fuel + 1) s = (members, rest))
    (hmembers : members.skim = .ok ()) : DenotesMembers s members rest := by
  rw [scanMembers] at h
  generalize hkey : scanString {} s = scanned at h
  rcases scanned with ⟨key, s₁⟩
  dsimp only at h
  split at h
  · cases h
    exact nomatch (Members.skim_member.mp hmembers).2.1
  · next s₂ hcolon =>
      generalize hvalue : scanValue fuel s₂ = scanned at h
      rcases scanned with ⟨value, s₄⟩
      dsimp only at h
      have hname : ∀ {more : Members}, (Members.member key value more).skim = .ok () →
          ∃ name, Quotes s name s₁ ∧ key = Element.quoted name := fun hskim =>
        closes_iff.mp ⟨hkey, (Members.skim_member.mp hskim).1⟩
      split at h
      · cases h
        exact nomatch (Members.skim_member.mp hmembers).2.2
      · next after hclose =>
          cases h
          rcases hname hmembers with ⟨name, hquotes, rfl⟩
          rcases ih.value hvalue (Members.skim_member.mp hmembers).2.1 with ⟨s₃, hs₃, hdenotes⟩
          exact .last hquotes (spaces_of_skipSpace_eq hcolon) hs₃ hdenotes
            (spaces_of_skipSpace_eq hclose)
      · next s₅ hcomma =>
          split at h
          · cases h
            exact nomatch (Members.skim_member.mp hmembers).2.2
          · next s₆ hquote =>
              generalize hmore : scanMembers fuel s₆ = scanned at h
              rcases scanned with ⟨more, after⟩
              cases h
              rcases hname hmembers with ⟨name, hquotes, rfl⟩
              rcases Members.skim_member.mp hmembers with ⟨-, hskim, hskim'⟩
              rcases ih.value hvalue hskim with ⟨s₃, hs₃, hdenotes⟩
              exact .next hquotes (spaces_of_skipSpace_eq hcolon) hs₃ hdenotes
                (spaces_of_skipSpace_eq hcomma) (spaces_of_skipSpace_eq hquote)
                (ih.members hmore hskim')
          · cases h
            exact nomatch (Members.skim_member.mp hmembers).2.2
      · cases h
        exact nomatch (Members.skim_member.mp hmembers).2.2
  · cases h
    exact nomatch (Members.skim_member.mp hmembers).2.2

theorem denotes_of_scanArray {fuel : Nat} (ih : ScansSoundly fuel) {s rest : Source} {o : Outline}
    (h : scanValue (fuel + 1) (.char '[' :: s) = (o, rest)) (ho : o.skim = .ok ()) :
    Denotes (.char '[' :: s) o rest := by
  rw [scanValue, skipSpace_cons rfl] at h
  simp only at h
  split at h
  · cases h
    exact nomatch ho
  · next after hclose =>
      cases h
      exact .emptyArray (spaces_of_skipSpace_eq hclose)
  · generalize hitems : scanItems fuel _ = scanned at h
    rcases scanned with ⟨items, after⟩
    cases h
    rcases ih.items hitems ho with ⟨s', hs', hdenotes⟩
    exact .array ((spaces_skipSpace s).trans hs') hdenotes

theorem denotes_of_scanObject {fuel : Nat} (ih : ScansSoundly fuel) {s rest : Source} {o : Outline}
    (h : scanValue (fuel + 1) (.char '\x7b' :: s) = (o, rest)) (ho : o.skim = .ok ()) :
    Denotes (.char '\x7b' :: s) o rest := by
  rw [scanValue, skipSpace_cons rfl] at h
  simp only at h
  split at h
  · cases h
    exact nomatch ho
  · next after hclose =>
      cases h
      exact .emptyObject (spaces_of_skipSpace_eq hclose)
  · next s' hquote =>
      generalize hmembers : scanMembers fuel s' = scanned at h
      rcases scanned with ⟨members, after⟩
      cases h
      exact .object (spaces_of_skipSpace_eq hquote) (ih.members hmembers ho)
  · cases h
    exact nomatch ho

/-- A value that starts without blanks. -/
theorem denotes_of_scanValue_cons {fuel : Nat} (ih : ScansSoundly fuel) {p : Piece} {s rest : Source}
    {o : Outline} (hp : isSpace p = false) (h : scanValue (fuel + 1) (p :: s) = (o, rest))
    (ho : o.skim = .ok ()) : Denotes (p :: s) o rest := by
  have hscan := h
  rw [scanValue, skipSpace_cons hp] at h
  cases p with
  | gap bytes =>
      cases h
      exact nomatch ho
  | char c =>
      dsimp only at h
      split at h
      · generalize hstring : scanString {} s = scanned at h
        rcases scanned with ⟨q, after⟩
        cases h
        rcases closes_iff.mp ⟨hstring, ho⟩ with ⟨es, hes, rfl⟩
        exact .string hes
      · exact denotes_of_scanArray ih hscan ho
      · exact denotes_of_scanObject ih hscan ho
      · rcases append_of_scanName h ho with ⟨rfl, rfl⟩
        exact .null
      · rcases append_of_scanName h ho with ⟨rfl, rfl⟩
        exact .yes
      · rcases append_of_scanName h ho with ⟨rfl, rfl⟩
        exact .no
      · rcases numeral_of_scanNumber h ho with ⟨l, hl, rfl⟩
        exact .negative hl
      · split at h
        · rcases numeral_of_scanNumber h ho with ⟨l, hl, rfl⟩
          exact .number hl
        · cases h
          exact nomatch ho

theorem denotes_of_scanValue_succ {fuel : Nat} (ih : ScansSoundly fuel) {s rest : Source}
    {o : Outline} (h : scanValue (fuel + 1) s = (o, rest)) (ho : o.skim = .ok ()) :
    ∃ s', Spaces s s' ∧ Denotes s' o rest := by
  have hspaces := spaces_skipSpace s
  rw [scanValue_spaces hspaces] at h
  cases hs : skipSpace s with
  | nil =>
      rw [hs] at h
      cases h
      exact nomatch ho
  | cons p s' =>
      rw [hs] at h hspaces
      have hp : isSpace p = false := isSpace_of_skipSpace_eq hs
      exact ⟨p :: s', hspaces, denotes_of_scanValue_cons ih hp h ho⟩

theorem scansSoundly (fuel : Nat) : ScansSoundly fuel := by
  induction fuel with
  | zero =>
      -- A scan that has run out is at fault.
      refine ⟨?_, ?_, ?_⟩
      all_goals
        intro s rest o h ho
        cases h
        exact nomatch ho
  | succ fuel ih =>
      exact ⟨denotes_of_scanValue_succ ih, denotesItems_of_scanItems ih,
        denotesMembers_of_scanMembers ih⟩

/-- An outline that can be passed over is the outline of a value. -/
theorem denotes_of_scanValue {fuel : Nat} {s rest : Source} {o : Outline}
    (h : scanValue fuel s = (o, rest)) (ho : o.skim = .ok ()) :
    ∃ s', Spaces s s' ∧ Denotes s' o rest :=
  (scansSoundly fuel).value h ho

mutual

/-- An outline that the grammar gives can be passed over. -/
theorem Denotes.skim {s rest : Source} {o : Outline} (h : Denotes s o rest) : o.skim = .ok () := by
  cases h with
  | string quotes => exact Element.skim_quoted _
  | array spaces denoted => exact denoted.skim
  | object spaces denoted => exact denoted.skim
  | _ => rfl

theorem DenotesItems.skim {s rest : Source} {items : Items} (h : DenotesItems s items rest) :
    items.skim = .ok () := by
  cases h with
  | last denoted behind => exact Items.skim_item.mpr ⟨denoted.skim, rfl⟩
  | next denoted behind before more => exact Items.skim_item.mpr ⟨denoted.skim, more.skim⟩

theorem DenotesMembers.skim {s rest : Source} {members : Members} (h : DenotesMembers s members rest) :
    members.skim = .ok () := by
  cases h with
  | last quotes colon before denoted behind =>
      exact Members.skim_member.mpr ⟨Element.skim_quoted _, denoted.skim, rfl⟩
  | next quotes colon before denoted behind quote more =>
      exact Members.skim_member.mpr ⟨Element.skim_quoted _, denoted.skim, more.skim⟩

end

/-! ### Documents -/

theorem outline_of_spaces {s s' rest : Source} {o : Outline} (before : Spaces s s')
    (denoted : Denotes s' o rest) (behind : Spaces rest []) : outline s = (o, rest) := by
  have hlength := before.length_le
  have hrest : Delimits rest := behind.delimits nofun
  rw [outline, scanValue_spaces before, scanValue_denotes denoted hrest _ (by omega)]

theorem Document.skim {s : Source} {o : Outline} (h : Document s o) : o.skim = .ok () := by
  rcases h with ⟨s', rest, -, denoted, -⟩
  exact denoted.skim

/-- What is scanned to its end without a fault is a document. -/
theorem document_of_outline {s rest : Source} {o : Outline} (h : outline s = (o, rest))
    (ho : o.skim = .ok ()) (hrest : skipSpace rest = []) : Document s o := by
  rcases denotes_of_scanValue h ho with ⟨s', before, denoted⟩
  exact ⟨s', rest, before, denoted, spaces_of_skipSpace_eq hrest⟩

/-- A document is decoded by its outline. -/
theorem Document.decode_eq {α : Type} {decoder : Decoder α} {s : Source} {o : Outline}
    (h : Document s o) : decode decoder s = decoder o := by
  rcases h with ⟨s', rest, before, denoted, behind⟩
  rw [decode, outline_of_spaces before denoted behind]
  simp only [behind.skipSpace_eq]
  cases decoder o <;> rfl

/-- What is decoded is a document, if the decoder looks at everything. -/
theorem decode_eq_ok_iff {α : Type} {decoder : Decoder α}
    (hskim : ∀ {o a}, decoder o = .ok a → o.skim = .ok ()) {s : Source} {a : α} :
    decode decoder s = .ok a ↔ ∃ o, Document s o ∧ decoder o = .ok a := by
  constructor
  · intro h
    rw [decode] at h
    generalize houtline : outline s = scanned at h
    rcases scanned with ⟨o, rest⟩
    cases ho : decoder o with
    | error fault =>
        simp only [ho] at h
        exact nomatch h
    | ok b =>
        simp only [ho] at h
        -- What the decoder has found counts only if nothing is left behind it.
        cases hrest : skipSpace rest with
        | cons p rest' =>
            rw [hrest] at h
            exact nomatch h
        | nil =>
            rw [hrest] at h
            cases h
            exact ⟨o, document_of_outline houtline (hskim ho) hrest, ho⟩
  · rintro ⟨o, hdocument, ho⟩
    rw [hdocument.decode_eq, ho]

end Restyle.Json
