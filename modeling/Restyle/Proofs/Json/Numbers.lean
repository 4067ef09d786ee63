import Mathlib.Data.List.Basic
import Restyle.Json.Scan

/-!
# Numbers in Sources

What a number looks like, and that the scanner accepts these numbers and no others.

A number has no mark at its end. The grammar does not ask that it be as long as possible: what may follow
a value in a document does not go on with a number, and only where this is known is a number scanned to its
end. In the other direction nothing has to be known, because a scanner that stops leaves a number behind
it wherever it stops.

## Main definitions

* `Digits`, `Whole`, `Fraction`, `Exponent`: The parts of a number.
* `Numeral`: Behind its sign stands a literal.
* `Delimits`: What follows goes on with no number.

## Theorems

* `scanNumber_numeral`: A number is scanned to its end.
* `numeral_of_scanNumber`: What is scanned as a number is one.
-/

namespace Restyle.Json

open Utf8 (Piece)

/-- Pieces are decimal digits and then others. -/
inductive Digits : Source → List Nat → Source → Prop where
  | done {rest : Source} : Digits rest [] rest
  | digit {p : Piece} {d : Nat} {s rest : Source} {ds : List Nat} (h : digit? p = some d)
      (more : Digits s ds rest) : Digits (p :: s) (d :: ds) rest

/-- The digits before the point: some, and no zero in front of another digit. -/
def Whole (s : Source) (ds : List Nat) (rest : Source) : Prop :=
  Digits s ds rest ∧ ds ≠ [] ∧ ∀ d ds', ds ≠ 0 :: d :: ds'

/-- A point and digits, or nothing. -/
inductive Fraction : Source → Option (List Nat) → Source → Prop where
  | absent {rest : Source} : Fraction rest none rest
  | point {s rest : Source} {ds : List Nat} (digits : Digits s ds rest) (nonempty : ds ≠ []) :
      Fraction (.char '.' :: s) (some ds) rest

/-- The sign of an exponent, true for minus. -/
inductive ExponentSign : Source → Bool → Source → Prop where
  | absent {rest : Source} : ExponentSign rest false rest
  | plus {rest : Source} : ExponentSign (.char '+' :: rest) false rest
  | minus {rest : Source} : ExponentSign (.char '-' :: rest) true rest

/-- The letter of an exponent, its sign and digits, or nothing. -/
inductive Exponent : Source → Option (Bool × List Nat) → Source → Prop where
  | absent {rest : Source} : Exponent rest none rest
  | letter {c : Char} {s s' rest : Source} {down : Bool} {ds : List Nat} (h : c = 'e' ∨ c = 'E')
      (sign : ExponentSign s down s') (digits : Digits s' ds rest) (nonempty : ds ≠ []) :
      Exponent (.char c :: s) (some (down, ds)) rest

/-- Behind its sign stands a literal. -/
inductive Numeral (negative : Bool) : Source → Literal → Source → Prop where
  | parts {s s₁ s₂ rest : Source} {whole : List Nat} {fraction : Option (List Nat)}
      {exponent : Option (Bool × List Nat)} (before : Whole s whole s₁)
      (behind : Fraction s₁ fraction s₂) (power : Exponent s₂ exponent rest) :
      Numeral negative s { negative, whole, fraction, exponent } rest

theorem Digits.length_le {s rest : Source} {ds : List Nat} (h : Digits s ds rest) :
    rest.length + ds.length ≤ s.length := by
  induction h with
  | done => exact Nat.le_refl _
  | digit hd more ih =>
      simp only [List.length_cons]
      omega

theorem Fraction.length_le {s rest : Source} {f : Option (List Nat)} (h : Fraction s f rest) :
    rest.length ≤ s.length := by
  cases h with
  | absent => exact Nat.le_refl _
  | point digits nonempty =>
      have hdigits := digits.length_le
      rw [List.length_cons]
      omega

theorem ExponentSign.length_le {s rest : Source} {down : Bool} (h : ExponentSign s down rest) :
    rest.length ≤ s.length := by
  cases h with
  | absent => exact Nat.le_refl _
  | plus => exact Nat.le_succ _
  | minus => exact Nat.le_succ _

theorem Exponent.length_le {s rest : Source} {e : Option (Bool × List Nat)} (h : Exponent s e rest) :
    rest.length ≤ s.length := by
  cases h with
  | absent => exact Nat.le_refl _
  | letter hc sign digits nonempty =>
      have hsign := sign.length_le
      have hdigits := digits.length_le
      rw [List.length_cons]
      omega

theorem Numeral.length_lt {negative : Bool} {s rest : Source} {l : Literal}
    (h : Numeral negative s l rest) : rest.length < s.length := by
  rcases h with ⟨⟨digits, nonempty, -⟩, behind, power⟩
  have hwhole := digits.length_le
  have hnonempty := List.length_pos_of_ne_nil nonempty
  have hfraction := behind.length_le
  have hexponent := power.length_le
  omega

/-- A number starts with a digit, behind its sign. -/
theorem Numeral.exists_head {negative : Bool} {s rest : Source} {l : Literal}
    (h : Numeral negative s l rest) :
    ∃ c d s', s = .char c :: s' ∧ digit? (.char c) = some d := by
  rcases h with ⟨⟨digits, nonempty, -⟩, -, -⟩
  cases digits with
  | done => exact absurd rfl nonempty
  | @digit p d s _ _ hd more =>
      cases p with
      | gap bytes => exact nomatch hd
      | char c => exact ⟨c, d, s, rfl, hd⟩

/-- What follows does not go on with a number. -/
def Delimits (s : Source) : Prop :=
  ∀ p ∈ s.head?, digit? p = none ∧ p ≠ .char '.' ∧ p ≠ .char 'e' ∧ p ≠ .char 'E'

theorem scanDigits_digits {s rest : Source} {ds : List Nat} (h : Digits s ds rest)
    (hrest : ∀ p ∈ rest.head?, digit? p = none) : scanDigits s = (ds, rest) := by
  induction h with
  | @done rest =>
      cases rest with
      | nil => rfl
      | cons p rest => simp only [scanDigits, hrest p rfl]
  | digit hd more ih => simp only [scanDigits, hd, ih hrest]

theorem digits_of_scanDigits {s rest : Source} {ds : List Nat} (h : scanDigits s = (ds, rest)) :
    Digits s ds rest := by
  induction s generalizing ds with
  | nil =>
      cases h
      exact .done
  | cons p s ih =>
      simp only [scanDigits] at h
      split at h
      · next d hd =>
          cases h
          exact .digit hd (ih rfl)
      · cases h
        exact .done

/-- The sign of an exponent and what comes after it. -/
def exponentSign : Source → Bool × Source
  | .char '+' :: rest => (false, rest)
  | .char '-' :: rest => (true, rest)
  | rest => (false, rest)

theorem exponentSign_digit {p : Piece} {d : Nat} (hd : digit? p = some d) (s : Source) :
    exponentSign (p :: s) = (false, p :: s) := by
  rw [exponentSign]
  · rintro rest heq
    rcases List.cons.inj heq with ⟨rfl, -⟩
    exact nomatch hd
  · rintro rest heq
    rcases List.cons.inj heq with ⟨rfl, -⟩
    exact nomatch hd

theorem exponentSign_eq (s : Source) : ExponentSign s (exponentSign s).1 (exponentSign s).2 := by
  rw [exponentSign.eq_def]
  split
  · exact .plus
  · exact .minus
  · exact .absent

theorem ExponentSign.scan {s s' rest : Source} {down : Bool} {ds : List Nat}
    (h : ExponentSign s down s') (digits : Digits s' ds rest) (nonempty : ds ≠ []) :
    exponentSign s = (down, s') := by
  cases h with
  | plus => rfl
  | minus => rfl
  | absent =>
      cases digits with
      | done => exact absurd rfl nonempty
      | digit hd more => exact exponentSign_digit hd _

theorem scanExponent_letter {c : Char} (hc : c = 'e' ∨ c = 'E') (l : Literal) (s : Source) :
    scanExponent l (.char c :: s) =
      match scanDigits (exponentSign s).2 with
      | ([], after) => digitDue after
      | (ds, after) =>
        (.number { l with exponent := some ((exponentSign s).1, ds) }.number?, after) := by
  rw [scanExponent.eq_def]
  simp only [if_pos hc]
  rfl

theorem scanExponent_none {s : Source} (hs : ∀ p ∈ s.head?, p ≠ .char 'e' ∧ p ≠ .char 'E')
    (l : Literal) : scanExponent l s = (.number l.number?, s) := by
  rw [scanExponent.eq_def]
  split
  · next c rest =>
      have hc := hs (.char c) rfl
      simp only [ne_eq, Piece.char.injEq] at hc
      rw [if_neg (by tauto)]
  · rfl

theorem scanExponent_exponent {s rest : Source} {e : Option (Bool × List Nat)}
    (h : Exponent s e rest) (hrest : Delimits rest) {l : Literal} (hl : l.exponent = none) :
    scanExponent l s = (.number { l with exponent := e }.number?, rest) := by
  cases h with
  | absent =>
      rw [scanExponent_none fun p hp => (hrest p hp).2.2, ← hl]
  | letter hc sign digits nonempty =>
      have hdigits := scanDigits_digits digits fun p hp => (hrest p hp).1
      rw [scanExponent_letter hc, sign.scan digits nonempty, hdigits]
      rcases List.exists_cons_of_ne_nil nonempty with ⟨d, ds, rfl⟩
      rfl

/-- What stands in front of an exponent goes on with no digits and no point. -/
theorem Exponent.head {s rest : Source} {e : Option (Bool × List Nat)} (h : Exponent s e rest)
    (hrest : Delimits rest) : ∀ p ∈ s.head?, digit? p = none ∧ p ≠ .char '.' := by
  cases h with
  | absent => exact fun p hp => ⟨(hrest p hp).1, (hrest p hp).2.1⟩
  | letter hc sign digits nonempty =>
      rintro p ⟨⟩
      rcases hc with rfl | rfl
      · exact ⟨rfl, by decide⟩
      · exact ⟨rfl, by decide⟩

theorem scanFraction_point (l : Literal) (s : Source) :
    scanFraction l (.char '.' :: s) =
      match scanDigits s with
      | ([], after) => digitDue after
      | (ds, after) => scanExponent { l with fraction := some ds } after := rfl

theorem scanFraction_none {s : Source} (hs : ∀ p ∈ s.head?, p ≠ .char '.') (l : Literal) :
    scanFraction l s = scanExponent l s := by
  rw [scanFraction.eq_def]
  split
  · exact absurd rfl (hs _ rfl)
  · rfl

theorem scanFraction_fraction {s s' rest : Source} {f : Option (List Nat)}
    {e : Option (Bool × List Nat)} (hf : Fraction s f s') (he : Exponent s' e rest)
    (hrest : Delimits rest) (negative : Bool) (whole : List Nat) :
    scanFraction { negative, whole } s =
      (.number { negative, whole, fraction := f, exponent := e : Literal }.number?, rest) := by
  cases hf with
  | absent =>
      rw [scanFraction_none fun p hp => (he.head hrest p hp).2, scanExponent_exponent he hrest rfl]
  | point digits nonempty =>
      rw [scanFraction_point, scanDigits_digits digits fun p hp => (he.head hrest p hp).1]
      rcases List.exists_cons_of_ne_nil nonempty with ⟨d, ds, rfl⟩
      exact scanExponent_exponent he hrest rfl

theorem Fraction.head {s s' rest : Source} {f : Option (List Nat)} {e : Option (Bool × List Nat)}
    (hf : Fraction s f s') (he : Exponent s' e rest) (hrest : Delimits rest) :
    ∀ p ∈ s.head?, digit? p = none := by
  cases hf with
  | absent => exact fun p hp => (he.head hrest p hp).1
  | point digits nonempty =>
      rintro p ⟨⟩
      rfl

theorem scanNumber_whole {s rest : Source} {ds : List Nat} (h : Whole s ds rest)
    (hrest : ∀ p ∈ rest.head?, digit? p = none) (negative : Bool) :
    scanNumber negative s = scanFraction { negative, whole := ds } rest := by
  rcases h with ⟨digits, nonempty, zero⟩
  rw [scanNumber, scanDigits_digits digits hrest]
  split
  · next heq => cases heq; exact absurd rfl nonempty
  · next heq => cases heq; exact absurd rfl (zero _ _)
  · next heq => cases heq; rfl

/-- A number is scanned to its end, if what follows does not go on with it. -/
theorem scanNumber_numeral {negative : Bool} {s rest : Source} {l : Literal}
    (h : Numeral negative s l rest) (hrest : Delimits rest) :
    scanNumber negative s = (.number l.number?, rest) := by
  rcases h with ⟨before, behind, power⟩
  rw [scanNumber_whole before (behind.head power hrest), scanFraction_fraction behind power hrest]

theorem skim_digitDue (s : Source) : (digitDue s).1.skim ≠ .ok () := by
  cases s <;> exact nofun

theorem exponent_of_scanExponent {l : Literal} {s rest : Source} {o : Outline}
    (h : scanExponent l s = (o, rest)) (ho : o.skim = .ok ()) (hl : l.exponent = none) :
    ∃ e, Exponent s e rest ∧ o = .number { l with exponent := e }.number? := by
  by_cases hs : ∀ p ∈ s.head?, p ≠ .char 'e' ∧ p ≠ .char 'E'
  · -- Whatever stands here, the number has ended in front of it.
    rw [scanExponent_none hs] at h
    cases h
    exact ⟨none, .absent, by rw [← hl]⟩
  · obtain ⟨c, s, rfl, hc⟩ : ∃ c s', s = .char c :: s' ∧ (c = 'e' ∨ c = 'E') := by
      cases s with
      | nil => simp at hs
      | cons p s =>
          simp only [List.head?_cons, Option.mem_def, Option.some.injEq, forall_eq', not_and_or,
            not_not] at hs
          rcases hs with rfl | rfl
          · exact ⟨'e', s, rfl, .inl rfl⟩
          · exact ⟨'E', s, rfl, .inr rfl⟩
    rw [scanExponent_letter hc] at h
    split at h
    · obtain rfl : (digitDue _).1 = o := congrArg Prod.fst h
      exact absurd ho (skim_digitDue _)
    · next ds after hds heq =>
        cases h
        exact ⟨some _, .letter hc (exponentSign_eq s) (digits_of_scanDigits heq) hds, rfl⟩

theorem fraction_of_scanFraction {negative : Bool} {whole : List Nat} {s rest : Source} {o : Outline}
    (h : scanFraction { negative, whole } s = (o, rest)) (ho : o.skim = .ok ()) :
    ∃ f s' e, Fraction s f s' ∧ Exponent s' e rest ∧
      o = .number { negative, whole, fraction := f, exponent := e : Literal }.number? := by
  by_cases hs : ∀ p ∈ s.head?, p ≠ .char '.'
  · rw [scanFraction_none hs] at h
    rcases exponent_of_scanExponent h ho rfl with ⟨e, he, rfl⟩
    exact ⟨none, s, e, .absent, he, rfl⟩
  · obtain ⟨s, rfl⟩ : ∃ s', s = .char '.' :: s' := by
      cases s with
      | nil => simp at hs
      | cons p s =>
          obtain rfl : p = .char '.' := by simpa using hs
          exact ⟨s, rfl⟩
    rw [scanFraction_point] at h
    split at h
    · obtain rfl : (digitDue _).1 = o := congrArg Prod.fst h
      exact absurd ho (skim_digitDue _)
    · next ds after hds heq =>
        rcases exponent_of_scanExponent h ho rfl with ⟨e, he, rfl⟩
        exact ⟨some ds, after, e, .point (digits_of_scanDigits heq) hds, he, rfl⟩

/-- What is scanned as a number is one. -/
theorem numeral_of_scanNumber {negative : Bool} {s rest : Source} {o : Outline}
    (h : scanNumber negative s = (o, rest)) (ho : o.skim = .ok ()) :
    ∃ l, Numeral negative s l rest ∧ o = .number l.number? := by
  rw [scanNumber] at h
  split at h
  · obtain rfl : (digitDue _).1 = o := congrArg Prod.fst h
    exact absurd ho (skim_digitDue _)
  · cases h
    exact nomatch ho
  · next ds after hempty hzero heq =>
      rcases fraction_of_scanFraction h ho with ⟨f, s', e, hf, he, rfl⟩
      exact ⟨_, .parts ⟨digits_of_scanDigits heq, hempty, hzero⟩ hf he, rfl⟩

end Restyle.Json
