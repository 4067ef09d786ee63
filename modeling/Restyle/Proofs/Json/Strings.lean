import Mathlib.Data.List.Basic
import Restyle.Json.Scan

/-!
# Strings in Bytes

What a string looks like in a document that may hold bytes that are not UTF-8, and that the scanner
accepts these strings and no others.

A string is taken apart in two steps. First come its elements: a character, raw or behind a backslash, a
UTF-16 unit, or a gap. Any sequence of elements is a string that can be passed over. Then the elements are
read as a text, which fails at a gap and at a unit that is half of a pair without the other half. The
scanner does both at once, so its state is a fold over the elements.

## Main definitions

* `Element`, `Quotes`: The elements behind an opening quote.
* `Element.text?`, `Element.quoted`: The text of elements.
* `Closes`: A scan comes to the closing quote.

## Theorems

* `Element.close_foldl`: What a scanner finds in the end.
* `scanString_quotes`: What has elements is scanned to its end.
* `closes_iff`: The strings that can be passed over are those that have elements.
-/

namespace Restyle.Json

/-- An element of a string: a character, a UTF-16 unit given by its number, or bytes that are not
    UTF-8. -/
inductive Element where
  | char (c : Char)
  | unit (n : Nat)
  | gap
  deriving DecidableEq, Repr

/-- Four digits are the number of a UTF-16 unit. -/
def IsUnit (a b c d : Char) (unit : Nat) : Prop :=
  ∃ w x y z, hexValue? a = some w ∧ hexValue? b = some x ∧ hexValue? c = some y ∧
    hexValue? d = some z ∧ unit = ((w * 16 + x) * 16 + y) * 16 + z

/-- What stands behind an opening quote has these elements, up to the closing quote. -/
inductive Quotes : Source → List Element → Source → Prop where
  | close {rest : Source} : Quotes (.char '"' :: rest) [] rest
  | raw {c : Char} {s rest : Source} {es : List Element} (quote : c ≠ '"') (backslash : c ≠ '\\')
      (printable : 0x20 ≤ c.toNat) (more : Quotes s es rest) :
      Quotes (.char c :: s) (.char c :: es) rest
  | gap {bytes : List UInt8} {s rest : Source} {es : List Element} (more : Quotes s es rest) :
      Quotes (.gap bytes :: s) (.gap :: es) rest
  | letter {c e : Char} {s rest : Source} {es : List Element} (h : escaped? c = some e)
      (more : Quotes s es rest) : Quotes (.char '\\' :: .char c :: s) (.char e :: es) rest
  | unit {a b c d : Char} {n : Nat} {s rest : Source} {es : List Element} (digits : IsUnit a b c d n)
      (more : Quotes s es rest) :
      Quotes (.char '\\' :: .char 'u' :: .char a :: .char b :: .char c :: .char d :: s)
        (.unit n :: es) rest

namespace Element

/-- The first half of a pair of units. -/
def IsHigh (n : Nat) : Prop := 0xD800 ≤ n ∧ n < 0xDC00

/-- The second half of a pair of units. -/
def IsLow (n : Nat) : Prop := 0xDC00 ≤ n ∧ n < 0xE000

instance (n : Nat) : Decidable (IsHigh n) := inferInstanceAs (Decidable (_ ∧ _))

instance (n : Nat) : Decidable (IsLow n) := inferInstanceAs (Decidable (_ ∧ _))

/-- The character of a pair of units. -/
def paired (high low : Nat) : Char :=
  Char.ofNat ((high - 0xD800) * 0x400 + (low - 0xDC00) + 0x10000)

/-- The text of elements. There is none if one of them is a gap or half of a pair that lacks the other
    half. -/
def text? : List Element → Option Text
  | [] => some []
  | .char c :: es => (c :: ·) <$> text? es
  | .gap :: _ => none
  | .unit n :: es =>
    if IsHigh n then
      match es with
      | .unit low :: es => if IsLow low then (paired n low :: ·) <$> text? es else none
      | _ => none
    else if IsLow n then none
    else (Char.ofNat n :: ·) <$> text? es

/-- The string of elements. -/
def quoted (es : List Element) : Quoted :=
  match text? es with
  | some t => .whole t
  | none => .unreadable

/-- What a string scanner remembers after one more element. -/
def feed (st : StringState) : Element → StringState
  | .char c => st.push c
  | .unit n => st.pushUnit n
  | .gap => st.pushGap

theorem escape_feed (st : StringState) (e : Element) : (feed st e).escape = .none := by
  cases e with
  | char c => rfl
  | gap => rfl
  | unit n =>
      simp only [feed, StringState.pushUnit]
      repeat' split
      all_goals rfl

/-- A scanner that has met a gap or a lone half finds nothing readable in the end. -/
theorem close_foldl_of_bad {st : StringState} (h : st.gap = true ∨ st.lone = true)
    (es : List Element) : (es.foldl feed st).close = .unreadable := by
  induction es generalizing st with
  | nil => rcases h with h | h <;> simp [StringState.close, h]
  | cons e es ih =>
      refine ih ?_
      rcases h with h | h
      all_goals cases e with
      | char c => simp [feed, StringState.push, StringState.settle, h]
      | gap => simp [feed, StringState.pushGap]
      | unit n =>
          simp only [feed, StringState.pushUnit]
          repeat' split
          all_goals simp [StringState.push, StringState.settle, h]

theorem feed_high {n : Nat} (h : IsHigh n) (st : StringState) :
    feed st (.unit n) = { st.settle with high := some n } :=
  if_pos h

theorem feed_low {n : Nat} (h : IsLow n) (st : StringState) :
    feed st (.unit n) =
      match st.high with
      | some high => { st with chars := paired high n :: st.chars, high := none, escape := .none }
      | none => { st.settle with lone := true } := by
  have hhigh : ¬ IsHigh n := fun h' => Nat.not_lt.mpr h.1 h'.2
  exact (if_neg hhigh).trans (if_pos h)

theorem feed_whole {n : Nat} (hhigh : ¬ IsHigh n) (hlow : ¬ IsLow n) (st : StringState) :
    feed st (.unit n) = st.push (Char.ofNat n) :=
  (if_neg hhigh).trans (if_neg hlow)

/-- A half that waits stays alone if anything but the other half comes. -/
theorem feed_waiting {st : StringState} {high : Nat} (hst : st.high = some high) {e : Element}
    (he : ∀ n, e = .unit n → ¬ IsLow n) : (feed st e).lone = true := by
  cases e with
  | char c => simp [feed, StringState.push, StringState.settle, hst]
  | gap => simp [feed, StringState.pushGap, StringState.settle, hst]
  | unit n =>
      by_cases hn : IsHigh n
      · simp [feed_high hn, StringState.settle, hst]
      · simp [feed_whole hn (he n rfl), StringState.push, StringState.settle, hst]

theorem text?_high {n : Nat} (h : IsHigh n) {e : Element} (he : ∀ n, e = .unit n → ¬ IsLow n)
    (es : List Element) : text? (.unit n :: e :: es) = none := by
  rw [text?.eq_def]
  cases e with
  | unit m => simp [h, he m rfl]
  | _ => simp [h]

theorem text?_pair {high low : Nat} (hhigh : IsHigh high) (hlow : IsLow low) (es : List Element) :
    text? (.unit high :: .unit low :: es) = (paired high low :: ·) <$> text? es := by
  rw [text?, if_pos hhigh, if_pos hlow]

theorem text?_low {n : Nat} (hhigh : ¬ IsHigh n) (hlow : IsLow n) (es : List Element) :
    text? (.unit n :: es) = none := by
  rw [text?.eq_def]
  simp [hhigh, hlow]

theorem text?_whole {n : Nat} (hhigh : ¬ IsHigh n) (hlow : ¬ IsLow n) (es : List Element) :
    text? (.unit n :: es) = (Char.ofNat n :: ·) <$> text? es := by
  rw [text?.eq_def]
  simp [hhigh, hlow]

/-- The string of the elements that follow characters read already. -/
def quotedAfter (before : Text) (es : List Element) : Quoted :=
  match text? es with
  | some t => .whole (before.reverse ++ t)
  | none => .unreadable

theorem quotedAfter_cons {before : Text} {c : Char} {es es' : List Element}
    (h : text? es = (c :: ·) <$> text? es') :
    quotedAfter before es = quotedAfter (c :: before) es' := by
  rw [quotedAfter, quotedAfter, h]
  cases text? es' with
  | none => rfl
  | some t => simp

theorem quotedAfter_none {before : Text} {es : List Element} (h : text? es = none) :
    quotedAfter before es = .unreadable := by
  rw [quotedAfter, h]

/-- What a scanner that has met nothing wrong finds in the end: what it has, and what it reads after
    a half that waits. -/
theorem close_foldl (before : Text) (high : Option Nat) (hhigh : ∀ n ∈ high, IsHigh n)
    (es : List Element) :
    (es.foldl feed { chars := before, high }).close =
      quotedAfter before (high.toList.map .unit ++ es) := by
  induction es generalizing before high with
  | nil => cases high with
    | none => simp [StringState.close, quotedAfter, text?]
    | some n => simp [StringState.close, quotedAfter, text?, hhigh n rfl]
  | cons e es ih =>
      rw [List.foldl_cons]
      cases high with
      | some n =>
          -- A half waits. Only the other half leads on, and then nothing waits any more.
          by_cases he : ∃ low, e = .unit low ∧ IsLow low
          · rcases he with ⟨low, rfl, hlow⟩
            rw [feed_low hlow]
            exact (ih (paired n low :: before) none (by simp)).trans
              (quotedAfter_cons (text?_pair (hhigh n rfl) hlow es)).symm
          · push Not at he
            rw [close_foldl_of_bad (.inr (feed_waiting rfl he))]
            exact (quotedAfter_none (text?_high (hhigh n rfl) he es)).symm
      | none =>
          cases e with
          | char c => exact (ih (c :: before) none (by simp)).trans (quotedAfter_cons rfl).symm
          | gap => exact close_foldl_of_bad (.inl rfl) es
          | unit n =>
              by_cases hn : IsHigh n
              · rw [feed_high hn]
                exact ih before (some n) (by simpa using hn)
              · by_cases hlow : IsLow n
                · rw [feed_low hlow, close_foldl_of_bad (.inr rfl)]
                  exact (quotedAfter_none (text?_low hn hlow es)).symm
                · rw [feed_whole hn hlow]
                  exact (ih (Char.ofNat n :: before) none (by simp)).trans
                    (quotedAfter_cons (text?_whole hn hlow es)).symm

theorem close_foldl_quoted (es : List Element) : (es.foldl feed {}).close = quoted es :=
  close_foldl [] none (by simp) es

end Element

/-! ### The scanner of strings -/

theorem scanString_unit {a b c d : Char} {unit : Nat} (h : IsUnit a b c d unit) (st : StringState)
    (hst : st.escape = .none) (s : Source) :
    scanString st (.char '\\' :: .char 'u' :: .char a :: .char b :: .char c :: .char d :: s) =
      scanString (st.pushUnit unit) s := by
  rcases h with ⟨w, x, y, z, ha, hb, hc, hd, rfl⟩
  -- The unit is taken in the same way from inside the escape and from before it.
  have hpush : ∀ e u, ({ st with escape := e } : StringState).pushUnit u = st.pushUnit u :=
    fun _ _ => rfl
  simp [scanString, hst, ha, hb, hc, hd, hpush]

/-- What has elements is scanned to its end. -/
theorem scanString_quotes {s rest : Source} {es : List Element} (h : Quotes s es rest)
    (st : StringState) (hst : st.escape = .none) :
    scanString st s = ((es.foldl Element.feed st).close, rest) := by
  induction h generalizing st with
  | close => simp [scanString, hst]
  | @raw c s rest es quote backslash printable more ih =>
      have hscan : scanString st (.char c :: s) = scanString (st.push c) s := by
        simp only [scanString, hst, if_neg quote, if_neg backslash, if_neg (Nat.not_lt.mpr printable)]
      rw [hscan, ih _ rfl]
      rfl
  | @gap bytes s rest es more ih =>
      have hscan : scanString st (.gap bytes :: s) = scanString st.pushGap s := by
        simp only [scanString, hst]
      rw [hscan, ih _ rfl]
      rfl
  | @letter c e s rest es h more ih =>
      have hu : c ≠ 'u' := by
        rintro rfl
        exact nomatch h
      have hscan : scanString st (.char '\\' :: .char c :: s) = scanString (st.push e) s := by
        simp [scanString, hst, h]
        rfl
      rw [hscan, ih _ rfl]
      rfl
  | @unit a b c d n s rest es digits more ih =>
      rw [scanString_unit digits st hst]
      exact ih _ (Element.escape_feed st (.unit n))

theorem Quotes.length_lt {s rest : Source} {es : List Element} (h : Quotes s es rest) :
    rest.length < s.length := by
  induction h <;> simp only [List.length_cons] <;> omega

/-- What a scanner of a string answers if it comes to the closing quote. -/
def Closes (st : StringState) (s : Source) (q : Quoted) (rest : Source) : Prop :=
  scanString st s = (q, rest) ∧ q.skim = .ok ()

theorem not_closes_of_cut {st st' : StringState} {s s' rest : Source} {q : Quoted} {fault : Fault}
    (hscan : scanString st s = (st'.cut fault, s')) : ¬ Closes st s q rest := by
  rintro ⟨h, hq⟩
  obtain rfl : q = st'.cut fault := (congrArg Prod.fst (hscan.symm.trans h)).symm
  exact nomatch hq

theorem Closes.exists_cons {st : StringState} {s rest : Source} {q : Quoted}
    (h : Closes st s q rest) : ∃ p s', s = p :: s' := by
  cases s with
  | nil => exact absurd h (not_closes_of_cut rfl)
  | cons p s => exact ⟨p, s, rfl⟩

/-- In the number of a unit only a digit leads on. -/
theorem Closes.digit {st : StringState} {s rest : Source} {q : Quoted} {due value : Nat}
    (h : Closes { st with escape := .digits due value } s q rest) :
    ∃ c d s', s = .char c :: s' ∧ hexValue? c = some d ∧
      if due ≤ 1 then Closes (st.pushUnit (value * 16 + d)) s' q rest
      else Closes { st with escape := .digits (due - 1) (value * 16 + d) } s' q rest := by
  rcases h.exists_cons with ⟨p, s, rfl⟩
  cases p with
  | gap bytes => exact absurd h (not_closes_of_cut rfl)
  | char c =>
      cases hc : hexValue? c with
      | none => exact absurd h (not_closes_of_cut (by simp only [scanString, hc]; rfl))
      | some d =>
          refine ⟨c, d, s, rfl, hc, ?_⟩
          simp only [Closes, scanString, hc] at h ⊢
          split
          · next hdue => rwa [if_pos hdue] at h
          · next hdue => rwa [if_neg hdue] at h

theorem Closes.unit {st : StringState} {s rest : Source} {q : Quoted}
    (h : Closes { st with escape := .digits 4 0 } s q rest) :
    ∃ a b c d n s', s = .char a :: .char b :: .char c :: .char d :: s' ∧ IsUnit a b c d n ∧
      Closes (st.pushUnit n) s' q rest := by
  rcases h.digit with ⟨a, w, s, rfl, ha, h⟩
  rcases h.digit with ⟨b, x, s, rfl, hb, h⟩
  rcases h.digit with ⟨c, y, s, rfl, hc, h⟩
  rcases h.digit with ⟨d, z, s, rfl, hd, h⟩
  exact ⟨a, b, c, d, _, s, rfl, ⟨w, x, y, z, ha, hb, hc, hd, by omega⟩, h⟩

/-- Behind a backslash stands a letter, or the number of a unit. -/
theorem Closes.escape {st : StringState} {s rest : Source} {q : Quoted}
    (h : Closes { st with escape := .backslash } s q rest) :
    (∃ c e s', s = .char c :: s' ∧ escaped? c = some e ∧ Closes (st.push e) s' q rest) ∨
      ∃ s', s = .char 'u' :: s' ∧ Closes { st with escape := .digits 4 0 } s' q rest := by
  rcases h.exists_cons with ⟨p, s, rfl⟩
  cases p with
  | gap bytes => exact absurd h (not_closes_of_cut rfl)
  | char c =>
      by_cases hu : c = 'u'
      · subst hu
        exact .inr ⟨s, rfl, h⟩
      · cases he : escaped? c with
        | none => exact absurd h (not_closes_of_cut (by simp only [scanString, he]; rfl))
        | some e =>
            refine .inl ⟨c, e, s, rfl, he, ?_⟩
            simp only [Closes, scanString, he] at h
            exact h

/-- What is scanned to a closing quote has elements. An element takes up to six pieces, so the induction
    is on the number of pieces. -/
theorem quotes_of_closes {st : StringState} {s rest : Source} {q : Quoted} (h : Closes st s q rest)
    (hst : st.escape = .none) :
    ∃ es, Quotes s es rest ∧ q = (es.foldl Element.feed st).close := by
  induction hn : s.length using Nat.strongRecOn generalizing s st with
  | _ n ih =>
      rcases h.exists_cons with ⟨p, s, rfl⟩
      rw [List.length_cons] at hn
      cases p with
      | gap bytes =>
          have hnext : Closes st.pushGap s q rest := by
            simpa only [Closes, scanString, hst] using h
          rcases ih s.length (by omega) hnext rfl rfl with ⟨es, hes, rfl⟩
          exact ⟨.gap :: es, .gap hes, rfl⟩
      | char c =>
          by_cases hquote : c = '"'
          · subst hquote
            obtain ⟨rfl, rfl⟩ : st.close = q ∧ s = rest := by
              simpa [scanString, hst] using h.1
            exact ⟨[], .close, rfl⟩
          by_cases hback : c = '\\'
          · -- The scanner takes an escape piece by piece, and only its end is a state between elements.
            subst hback
            have hnext : Closes { st with escape := .backslash } s q rest := by
              simpa [Closes, scanString, hst] using h
            rcases hnext.escape with ⟨c, e, s, rfl, he, hnext⟩ | ⟨s, rfl, hnext⟩
            · rw [List.length_cons] at hn
              rcases ih s.length (by omega) hnext rfl rfl with ⟨es, hes, rfl⟩
              exact ⟨.char e :: es, .letter he hes, rfl⟩
            · rcases hnext.unit with ⟨a, b, c, d, u, s, rfl, hu, hnext⟩
              simp only [List.length_cons] at hn
              obtain ⟨es, hes, rfl⟩ :=
                ih s.length (by omega) hnext (Element.escape_feed st (.unit u)) rfl
              exact ⟨.unit u :: es, .unit hu hes, rfl⟩
          by_cases hcontrol : c.toNat < 0x20
          · have hscan : scanString st (.char c :: s) = (st.cut .malformed, []) := by
              simp only [scanString, hst, if_neg hquote, if_neg hback, if_pos hcontrol]
            exact absurd h (not_closes_of_cut hscan)
          · have hnext : Closes (st.push c) s q rest := by
              simpa only [Closes, scanString, hst, if_neg hquote, if_neg hback, if_neg hcontrol] using h
            rcases ih s.length (by omega) hnext rfl rfl with ⟨es, hes, rfl⟩
            exact ⟨.char c :: es, .raw hquote hback (Nat.le_of_not_lt hcontrol) hes, rfl⟩

theorem Element.quoted_eq {es : List Element} {t : Text} (h : text? es = some t) :
    quoted es = .whole t := by
  rw [quoted, h]

theorem Element.skim_quoted (es : List Element) : (quoted es).skim = .ok () := by
  rw [quoted]
  cases text? es <;> rfl

/-- The strings that can be passed over are those that have elements. -/
theorem closes_iff {s rest : Source} {q : Quoted} :
    Closes {} s q rest ↔ ∃ es, Quotes s es rest ∧ q = Element.quoted es := by
  constructor
  · intro h
    rcases quotes_of_closes h rfl with ⟨es, hes, rfl⟩
    exact ⟨es, hes, Element.close_foldl_quoted es⟩
  · rintro ⟨es, hes, rfl⟩
    refine ⟨?_, Element.skim_quoted es⟩
    rw [scanString_quotes hes {} rfl, Element.close_foldl_quoted]

end Restyle.Json
