import Mathlib.Data.List.Basic
import Mathlib.Data.Option.Basic
import Restyle.Ignore.Brace
import Restyle.Proofs.Text.Spans
import Restyle.Proofs.Text.Utf8

/-!
# Cutting Patterns Byte by Byte

The group of a pattern as it is found in the bytes of the pattern.

A pattern is handed over as UTF-8, and a scanner may look at its bytes without decoding them: braces,
commas and backslashes are characters of one byte, and no byte of any other character has seven bits. It
counts the open braces and keeps the offsets of the first one, of the commas at its level and of the
brace that closes it, and the pattern is then cut at these offsets. A backslash makes it skip one byte,
which may be only the first of a character, but the others mean nothing to it.

Such a scanner goes through the same states as the one that reads characters, so it finds a group exactly
if that one does. The offsets are those between which the parts of the group lie. So every cut is made
beside a character of one byte, and the pieces are texts.

## Main definitions

* `Cuts`: Where a group is cut.
* `cuts?`: Where the first group of some bytes is cut.
* `Cuts.spans`: What lies between two cuts.
* `Cuts.Fits`: A pattern can be cut there.
* `Cuts.rebuilt`: The patterns with one alternative in place of the group.
* `CutBy`: The cuts of a group.

## Theorems

* `rel_cutsFrom`: Both scanners find the same group.
* `fits`: A pattern is cut between characters.
* `rebuilt_eq`: What is rebuilt is the pattern with one alternative in place of the group.
-/

namespace Restyle.Brace

open Text

/-- The offsets at which the bytes of a group are cut: its opening brace, the commas between its
    alternatives, and its closing brace. -/
structure Cuts where
  opening : Nat
  commas : List Nat
  closing : Nat
  deriving DecidableEq, Repr

/-- A scanner of bytes: how many braces are open, where the first of them is, and the commas at its
    level, newest first. -/
structure Tracker where
  depth : Nat := 0
  opening : Nat := 0
  commas : List Nat := []
  deriving DecidableEq, Repr

/-- The cuts of the first group in the bytes that follow a place. -/
def cutsFrom : Nat → Tracker → List UInt8 → Option Cuts
  | _, _, [] => none
  | place, t, b :: rest =>
    if b = 0x5C then
      match rest with
      | [] => none
      | _ :: rest => cutsFrom (place + 2) t rest
    else if b = 0x7B then
      if t.depth = 0 then cutsFrom (place + 1) { depth := 1, opening := place } rest
      else cutsFrom (place + 1) { t with depth := t.depth + 1 } rest
    else if b = 0x2C ∧ t.depth = 1 then
      cutsFrom (place + 1) { t with commas := place :: t.commas } rest
    else if b = 0x7D ∧ t.depth ≠ 0 then
      if t.depth = 1 ∧ t.commas ≠ [] then
        some { opening := t.opening, commas := t.commas.reverse, closing := place }
      else cutsFrom (place + 1) { t with depth := t.depth - 1 } rest
    else cutsFrom (place + 1) t rest

/-- The cuts of the first group of some bytes. -/
def cuts? (bytes : List UInt8) : Option Cuts :=
  cutsFrom 0 {} bytes

/-- All offsets at which a group is cut. -/
def Cuts.offsets (c : Cuts) : List Nat :=
  c.opening :: c.commas ++ [c.closing]

/-- What lies between a cut and each of those behind it, without the byte at the cut. -/
def spansBetween : Nat → List Nat → List Span
  | _, [] => []
  | n, m :: ms => ⟨n + 1, m⟩ :: spansBetween m ms

/-- What lies between the cuts, which are the alternatives. -/
def Cuts.spans (c : Cuts) : List Span :=
  spansBetween c.opening (c.commas ++ [c.closing])

/-- A pattern can be cut where a group is: every piece starts and ends between characters, and none ends
    before it starts. -/
structure Cuts.Fits (c : Cuts) (p : Text) : Prop where
  before : p.IsBoundary c.opening
  after : p.IsBoundary (c.closing + 1)
  between : ∀ s ∈ c.spans, p.IsBoundary s.start ∧ p.IsBoundary s.stop ∧ s.start ≤ s.stop

/-- A pattern with each of the alternatives in place of the group. -/
def Cuts.rebuilt (c : Cuts) (p : Text) : List Text :=
  c.spans.map fun s =>
    p.takeBytes c.opening ++ p.slice s.start s.stop ++ p.dropBytes (c.closing + 1)

/-! ### Reading the bytes of a character -/

/-- What becomes of a byte that is not a backslash. -/
theorem cutsFrom_cons {b : UInt8} (hescape : b ≠ 0x5C) (place : Nat) (t : Tracker)
    (rest : List UInt8) :
    cutsFrom place t (b :: rest) =
      if b = 0x7B then
        if t.depth = 0 then cutsFrom (place + 1) { depth := 1, opening := place } rest
        else cutsFrom (place + 1) { t with depth := t.depth + 1 } rest
      else if b = 0x2C ∧ t.depth = 1 then
        cutsFrom (place + 1) { t with commas := place :: t.commas } rest
      else if b = 0x7D ∧ t.depth ≠ 0 then
        if t.depth = 1 ∧ t.commas ≠ [] then
          some { opening := t.opening, commas := t.commas.reverse, closing := place }
        else cutsFrom (place + 1) { t with depth := t.depth - 1 } rest
      else cutsFrom (place + 1) t rest := by
  cases rest <;> exact if_neg hescape

/-- Bytes of characters that have more than one mean nothing. -/
theorem cutsFrom_append {bytes : List UInt8} (h : ∀ b ∈ bytes, 0x80 ≤ b.toNat) (place : Nat)
    (t : Tracker) (rest : List UInt8) :
    cutsFrom place t (bytes ++ rest) = cutsFrom (place + bytes.length) t rest := by
  induction bytes generalizing place with
  | nil => rfl
  | cons b bytes ih =>
      have hb := h b List.mem_cons_self
      have hne : ∀ x : UInt8, x.toNat < 0x80 → b ≠ x := by
        rintro x hx rfl
        omega
      rw [List.cons_append, cutsFrom_cons (hne _ (by decide)), if_neg (hne _ (by decide)),
        if_neg fun hcomma => hne _ (by decide) hcomma.1,
        if_neg fun hbrace => hne _ (by decide) hbrace.1,
        ih fun x hx => h x (List.mem_cons_of_mem b hx), List.length_cons, Nat.add_assoc,
        Nat.add_comm 1]

/-- A character of one byte is known by its byte. -/
theorem ofNat_toNat_ne {c d : Char} (hc : c.toNat < 0x80) (hd : d.toNat < 0x80) (h : c ≠ d) :
    UInt8.ofNat c.toNat ≠ UInt8.ofNat d.toNat := by
  intro heq
  have hnat := congrArg UInt8.toNat heq
  rw [UInt8.toNat_ofNat', UInt8.toNat_ofNat', Nat.mod_eq_of_lt (by omega),
    Nat.mod_eq_of_lt (by omega)] at hnat
  exact h (Char.toNat_inj.mp hnat)

/-- A character that is not special where it stands is passed over. -/
theorem cutsFrom_pass {c : Char} {t : Tracker} (hescape : c ≠ '\\') (hopening : c ≠ '\x7b')
    (hcomma : c = ',' → t.depth ≠ 1) (hclosing : c = '\x7d' → t.depth = 0) (place : Nat)
    (rest : Text) :
    cutsFrom place t (toUtf8 (c :: rest)) = cutsFrom (place + c.utf8Size) t (toUtf8 rest) := by
  rw [toUtf8_cons, ← String.length_utf8EncodeChar]
  by_cases hc : c.toNat < 0x80
  · have hne : ∀ d : Char, d.toNat < 0x80 → UInt8.ofNat c.toNat = UInt8.ofNat d.toNat → c = d :=
      fun d hd heq => Decidable.byContradiction fun hcd => ofNat_toNat_ne hc hd hcd heq
    have hbackslash : UInt8.ofNat c.toNat ≠ 0x5C := fun h => hescape (hne '\\' (by decide) h)
    have hbrace : UInt8.ofNat c.toNat ≠ 0x7B := fun h => hopening (hne '\x7b' (by decide) h)
    rw [Utf8.encode_ascii hc, List.singleton_append, cutsFrom_cons hbackslash, if_neg hbrace,
      if_neg fun h => hcomma (hne ',' (by decide) h.1) h.2,
      if_neg fun h => h.2 (hclosing (hne '\x7d' (by decide) h.1)), List.length_singleton]
  · rcases Utf8.exists_encode (Nat.le_of_not_lt hc) with ⟨b, due, hform, hlead⟩
    refine cutsFrom_append ?_ _ _ _
    rw [hform]
    intro x hx
    rcases List.mem_cons.mp hx with rfl | hrest
    · exact Nat.le_trans (by decide) hlead
    · exact (Utf8.continues_of_mem_continuation hrest).1

/-- Behind a backslash one byte is skipped, and the others of its character mean nothing. -/
theorem cutsFrom_escape (place : Nat) (t : Tracker) (c : Char) (rest : Text) :
    cutsFrom place t (toUtf8 ('\\' :: c :: rest)) =
      cutsFrom (place + (1 + c.utf8Size)) t (toUtf8 rest) := by
  have hbackslash : String.utf8EncodeChar '\\' = [0x5C] := rfl
  rw [toUtf8_cons, toUtf8_cons, hbackslash, ← String.length_utf8EncodeChar]
  by_cases hc : c.toNat < 0x80
  · rw [Utf8.encode_ascii hc]
    simp [cutsFrom]
  · rcases Utf8.exists_encode (Nat.le_of_not_lt hc) with ⟨b, due, hform, -⟩
    rw [hform, List.singleton_append, List.cons_append, cutsFrom, if_pos rfl,
      cutsFrom_append fun x hx => (Utf8.continues_of_mem_continuation hx).1, List.length_cons]
    congr 1
    omega

theorem cutsFrom_brace (place : Nat) {t : Tracker} (h : t.depth = 0) (rest : Text) :
    cutsFrom place t (toUtf8 ('\x7b' :: rest)) =
      cutsFrom (place + 1) { depth := 1, opening := place } (toUtf8 rest) := by
  have hbyte : toUtf8 ('\x7b' :: rest) = 0x7B :: toUtf8 rest := rfl
  rw [hbyte, cutsFrom_cons (by decide), if_pos rfl, if_pos h]

theorem cutsFrom_opening (place : Nat) {t : Tracker} (h : t.depth ≠ 0) (rest : Text) :
    cutsFrom place t (toUtf8 ('\x7b' :: rest)) =
      cutsFrom (place + 1) { t with depth := t.depth + 1 } (toUtf8 rest) := by
  have hbyte : toUtf8 ('\x7b' :: rest) = 0x7B :: toUtf8 rest := rfl
  rw [hbyte, cutsFrom_cons (by decide), if_pos rfl, if_neg h]

theorem cutsFrom_comma (place : Nat) {t : Tracker} (h : t.depth = 1) (rest : Text) :
    cutsFrom place t (toUtf8 (',' :: rest)) =
      cutsFrom (place + 1) { t with commas := place :: t.commas } (toUtf8 rest) := by
  have hbyte : toUtf8 (',' :: rest) = 0x2C :: toUtf8 rest := rfl
  rw [hbyte, cutsFrom_cons (by decide), if_neg (by decide), if_pos ⟨rfl, h⟩]

theorem cutsFrom_closing (place : Nat) {t : Tracker} (h : t.depth ≠ 0) (rest : Text) :
    cutsFrom place t (toUtf8 ('\x7d' :: rest)) =
      if t.depth = 1 ∧ t.commas ≠ [] then
        some { opening := t.opening, commas := t.commas.reverse, closing := place }
      else cutsFrom (place + 1) { t with depth := t.depth - 1 } (toUtf8 rest) := by
  have hbyte : toUtf8 ('\x7d' :: rest) = 0x7D :: toUtf8 rest := rfl
  rw [hbyte, cutsFrom_cons (by decide), if_neg (by decide),
    if_neg fun hboth => absurd hboth.1 (by decide), if_pos ⟨rfl, h⟩]

/-! ### Both scanners side by side -/

/-- Where each of several parts ends, if the first starts at an offset and one byte stands between
    two of them. -/
def ends : Nat → List Text → List Nat
  | _, [] => []
  | start, a :: parts => (start + a.byteLength) :: ends (start + a.byteLength + 1) parts

/-- The last part ends where all of them do when they are joined. -/
theorem ends_concat (start : Nat) (parts : List Text) (a : Text) :
    ends start (parts ++ [a]) =
      ends start parts ++ [start + byteLength ([','].intercalate (parts ++ [a]))] := by
  induction parts generalizing start with
  | nil => simp [ends]
  | cons b parts ih =>
      have hne : parts ++ [a] ≠ [] := List.append_ne_nil_of_right_ne_nil parts (List.cons_ne_nil a [])
      have hcomma : byteLength [','] = 1 := rfl
      rw [List.cons_append, ends, ends, ih, List.intercalate_cons_of_ne_nil hne, byteLength_append,
        byteLength_append, hcomma, List.cons_append]
      simp only [Nat.add_assoc]

/-- The cuts of a group. -/
structure CutBy (g : Group) (c : Cuts) : Prop where
  opening : c.opening = g.before.byteLength
  ends : c.commas ++ [c.closing] = ends (c.opening + 1) g.alternatives

/-- A scanner of bytes is at the same place of a pattern as one that reads characters. -/
inductive Tracks (read : Text) : Option Open → Nat → Tracker → Prop where
  | outside {place : Nat} {t : Tracker} (place_eq : place = byteLength read.reverse)
      (depth_eq : t.depth = 0) : Tracks read none place t
  | inside {o : Open} {place : Nat} {t : Tracker}
      (place_eq : place = byteLength (read.reverse ++ o.text)) (depth_eq : t.depth = o.depth + 1)
      (opening_eq : t.opening = byteLength read.reverse)
      (commas_eq : t.commas.reverse = ends (t.opening + 1) (o.earlier.reverse.map List.reverse)) :
      Tracks read (some o) place t

theorem Tracks.read {read : Text} {place : Nat} {t : Tracker} (h : Tracks read none place t)
    (c : Char) : Tracks (c :: read) none (place + c.utf8Size) t := by
  cases h with
  | outside place_eq depth_eq =>
      refine .outside ?_ depth_eq
      rw [List.reverse_cons, byteLength_append, ← place_eq]
      rfl

/-- A character of an alternative moves the place on. -/
theorem Tracks.push {read : Text} {o : Open} {place : Nat} {t : Tracker}
    (h : Tracks read (some o) place t) (depth : Nat) (c : Char) :
    Tracks read (some (o.push depth c)) (place + c.utf8Size) { t with depth := depth + 1 } := by
  cases h with
  | inside place_eq depth_eq opening_eq commas_eq =>
      refine .inside ?_ rfl opening_eq commas_eq
      rw [Open.text_push, ← List.append_assoc, byteLength_append, ← place_eq]
      rfl

theorem Tracks.depth_eq {read : Text} {o : Open} {place : Nat} {t : Tracker}
    (h : Tracks read (some o) place t) : t.depth = o.depth + 1 := by
  cases h with
  | inside place_eq depth_eq opening_eq commas_eq => exact depth_eq

/-- The offsets of the commas, and the place where the alternative being read ends. -/
theorem Tracks.ends_eq {read : Text} {o : Open} {place : Nat} {t : Tracker}
    (h : Tracks read (some o) place t) :
    t.commas.reverse ++ [place] =
      ends (t.opening + 1) ((o.current :: o.earlier).reverse.map List.reverse) := by
  cases h with
  | inside place_eq depth_eq opening_eq commas_eq =>
      have hplace : place = t.opening + 1 + byteLength
          ([','].intercalate (o.earlier.reverse.map List.reverse ++ [o.current.reverse])) := by
        rw [place_eq, byteLength_append, ← opening_eq, Open.text, byteLength, Nat.add_assoc]
        simp [Char.utf8Size]
      rw [List.reverse_cons, List.map_append, List.map_singleton, ends_concat, ← commas_eq, ← hplace]

theorem Tracks.commas_eq_nil_iff {read : Text} {o : Open} {place : Nat} {t : Tracker}
    (h : Tracks read (some o) place t) : t.commas = [] ↔ o.earlier = [] := by
  cases h with
  | inside place_eq depth_eq opening_eq commas_eq =>
      have hends : ∀ start parts, ends start parts = [] ↔ parts = [] := by
        intro start parts
        cases parts <;> simp [ends]
      rw [← List.reverse_eq_nil_iff, commas_eq, hends, List.map_eq_nil_iff, List.reverse_eq_nil_iff]

/-- A comma of the group begins another alternative, and its offset is kept. -/
theorem Tracks.next {read : Text} {o : Open} {place : Nat} {t : Tracker}
    (h : Tracks read (some o) place t) :
    Tracks read (some o.next) (place + 1) { t with commas := place :: t.commas } := by
  have hends := h.ends_eq
  cases h with
  | inside place_eq depth_eq opening_eq commas_eq =>
      refine .inside ?_ depth_eq opening_eq ?_
      · rw [Open.text_next, ← List.append_assoc, byteLength_append, ← place_eq]
        rfl
      · rw [List.reverse_cons, hends]
        rfl

/-- A group without a comma turns out to be text. -/
theorem Tracks.giveUp {read : Text} {o : Open} {place : Nat} {t : Tracker}
    (h : Tracks read (some o) place t) (hearlier : o.earlier = []) :
    Tracks ('\x7d' :: o.current ++ '\x7b' :: read) none (place + 1) { t with depth := 0 } := by
  cases h with
  | inside place_eq depth_eq opening_eq commas_eq =>
      have hread : List.reverse ('\x7d' :: o.current ++ '\x7b' :: read) =
          read.reverse ++ o.text ++ ['\x7d'] := by
        simp [Open.text, hearlier]
      refine .outside ?_ rfl
      rw [hread, byteLength_append, ← place_eq]
      rfl

/-- Behind a backslash at the end of a pattern there is nothing to be skipped. -/
theorem rel_cutsFrom_backslash {read : Text} {o : Option Open} {place : Nat} {t : Tracker}
    {rest : Text} (h : ∀ (c : Char) (more : Text), '\\' = '\\' → rest = c :: more → False) :
    Option.Rel CutBy (scan read o rest) (cutsFrom place t (toUtf8 ('\\' :: rest))) := by
  cases rest with
  | nil => exact .none
  | cons c more => exact (h c more rfl rfl).elim

/-- Both scanners find the same group. -/
theorem rel_cutsFrom {read : Text} {o : Option Open} {place : Nat} {t : Tracker} (p : Text)
    (h : Tracks read o place t) : Option.Rel CutBy (scan read o p) (cutsFrom place t p.toUtf8) := by
  fun_induction scan read o p generalizing place t with
  | case1 => exact .none
  | case2 read c rest ih =>
      rw [cutsFrom_escape, ← Nat.add_assoc]
      exact ih ((h.read '\\').read c)
  | case3 read rest hescape ih =>
      cases h with
      | outside place_eq depth_eq =>
          rw [cutsFrom_brace place depth_eq]
          refine ih (.inside ?_ rfl place_eq rfl)
          rw [byteLength_append, ← place_eq]
          rfl
  | case4 read c rest hescape hbrace ih =>
      by_cases hc : c = '\\'
      · subst hc
        exact rel_cutsFrom_backslash hescape
      · have hread := h.read c
        cases h with
        | outside place_eq depth_eq =>
            rw [cutsFrom_pass hc hbrace (by omega) fun _ => depth_eq]
            exact ih hread
  | case5 read o c rest ih =>
      have hpush := (h.push o.depth '\\').push o.depth c
      rw [← h.depth_eq] at hpush
      rw [cutsFrom_escape, ← Nat.add_assoc]
      exact ih hpush
  | case6 read o rest hescape ih =>
      have hpush := h.push (o.depth + 1) '\x7b'
      have hdepth : t.depth ≠ 0 := by rw [h.depth_eq]; exact Nat.succ_ne_zero _
      rw [cutsFrom_opening place hdepth, h.depth_eq]
      exact ih hpush
  | case7 read o rest hnested hescape _ ih =>
      -- A nested group ends, and the group that it is in stays open.
      have hpush := h.push (o.depth - 1) '\x7d'
      have hdepth := h.depth_eq
      have hlevel : o.depth - 1 + 1 = t.depth - 1 := by omega
      rw [hlevel] at hpush
      rw [cutsFrom_closing place (by omega), if_neg fun hboth => hnested (by omega)]
      exact ih hpush
  | case8 read o rest hlevel hearlier hescape _ ih =>
      have hdepth := h.depth_eq
      have hcommas := h.commas_eq_nil_iff.mpr hearlier
      have hlast : t.depth - 1 = 0 := by omega
      rw [cutsFrom_closing place (by omega), if_neg fun hboth => hboth.2 hcommas, hlast]
      exact ih (h.giveUp hearlier)
  | case9 read o rest hlevel hearlier hescape _ =>
      -- The group ends here, with what both have kept of it.
      have hdepth := h.depth_eq
      have hcommas : t.commas ≠ [] := fun hnil => hearlier (h.commas_eq_nil_iff.mp hnil)
      rw [cutsFrom_closing place (by omega), if_pos ⟨by omega, hcommas⟩]
      have hends := h.ends_eq
      cases h with
      | inside place_eq depth_eq opening_eq commas_eq => exact .some ⟨opening_eq, hends⟩
  | case10 read o c rest hescape hopening hclosing hcomma ih =>
      rcases hcomma with ⟨rfl, hlevel⟩
      have hdepth := h.depth_eq
      rw [cutsFrom_comma place (by omega)]
      exact ih h.next
  | case11 read o c rest hescape hopening hclosing hcomma ih =>
      by_cases hc : c = '\\'
      · subst hc
        exact rel_cutsFrom_backslash hescape
      · have hdepth := h.depth_eq
        have hpush := h.push o.depth c
        rw [← hdepth] at hpush
        have hnested : c = ',' → t.depth ≠ 1 := fun heq hone => hcomma ⟨heq, by omega⟩
        rw [cutsFrom_pass hc hopening hnested fun heq => absurd heq hclosing]
        exact ih hpush

/-- The group of a pattern is found in its bytes. -/
theorem rel_cuts? (p : Text) : Option.Rel CutBy (group? p) (cuts? p.toUtf8) :=
  rel_cutsFrom p (.outside rfl rfl)

/-! ### What is cut -/

/-- An offset before a character of one byte, and the one behind it, lie between characters. -/
theorem isBoundary_beside {p a b : Text} {c : Char} (h : p = a ++ c :: b) (hc : c.utf8Size = 1) :
    p.IsBoundary a.byteLength ∧ p.IsBoundary (a.byteLength + 1) := by
  have hbehind := isBoundary_append (a ++ [c]) b
  have hlength : byteLength (a ++ [c]) = a.byteLength + 1 := by
    rw [byteLength_append, byteLength, hc]
    rfl
  rw [hlength, List.append_assoc, List.singleton_append, ← h] at hbehind
  refine ⟨?_, hbehind⟩
  rw [h]
  exact isBoundary_append a (c :: b)

/-- Behind each of several joined parts there is a character of one byte. -/
theorem isBoundary_of_mem_ends {p u : Text} {parts : List Text} {c : Char} {v : Text}
    (hp : p = u ++ [','].intercalate parts ++ c :: v) (hc : c.utf8Size = 1) {n : Nat}
    (h : n ∈ ends u.byteLength parts) : p.IsBoundary n ∧ p.IsBoundary (n + 1) := by
  induction parts generalizing u with
  | nil => exact absurd h List.not_mem_nil
  | cons a parts ih =>
      rw [ends, ← byteLength_append] at h
      cases parts with
      | nil =>
          rw [List.intercalate_singleton] at hp
          rw [List.mem_singleton.mp h]
          exact isBoundary_beside hp hc
      | cons b parts =>
          have hrest : p = u ++ a ++ ',' :: ([','].intercalate (b :: parts) ++ c :: v) := by
            rw [hp, List.intercalate_cons_cons]
            simp only [List.append_assoc, List.cons_append, List.nil_append]
          rcases List.mem_cons.mp h with rfl | hmem
          · exact isBoundary_beside hrest rfl
          · refine ih (u := u ++ a ++ [',']) ?_ ?_
            · rw [hrest]
              simp only [List.append_assoc, List.cons_append, List.nil_append]
            · rw [byteLength_append (u ++ a)]
              exact hmem

theorem spansBetween_ends (n : Nat) (parts : List Text) :
    spansBetween n (ends (n + 1) parts) = spansFrom (n + 1) parts := by
  induction parts generalizing n with
  | nil => rfl
  | cons a parts ih => rw [ends, spansBetween, spansFrom, ih]

/-- What lies between cuts starts behind one and ends at another. -/
theorem of_mem_spansBetween {n : Nat} {ms : List Nat} {s : Span} (h : s ∈ spansBetween n ms) :
    (∃ k ∈ n :: ms, s.start = k + 1) ∧ s.stop ∈ ms := by
  induction ms generalizing n with
  | nil => exact absurd h List.not_mem_nil
  | cons m ms ih =>
      rcases List.mem_cons.mp h with rfl | hmem
      · exact ⟨⟨n, List.mem_cons_self, rfl⟩, List.mem_cons_self⟩
      · rcases ih hmem with ⟨⟨k, hk, hstart⟩, hstop⟩
        exact ⟨⟨k, List.mem_cons_of_mem n hk, hstart⟩, List.mem_cons_of_mem m hstop⟩

/-- The closing brace stands behind all alternatives. -/
theorem CutBy.closing_eq {g : Group} {c : Cuts} (h : CutBy g c) :
    c.closing = c.opening + 1 + byteLength ([','].intercalate g.alternatives) := by
  have hends := h.ends
  by_cases hne : g.alternatives = []
  · rw [hne] at hends
    exact absurd hends (List.append_ne_nil_of_right_ne_nil _ (List.cons_ne_nil _ _))
  · rw [← List.dropLast_concat_getLast hne] at hends ⊢
    rw [ends_concat] at hends
    exact List.singleton_inj.mp (List.append_inj' hends rfl).2

section Found

variable {p : Text} {g : Group} {c : Cuts} (hgroup : group? p = some g) (hcuts : CutBy g c)

include hgroup hcuts

/-- A pattern is cut between characters. -/
theorem isBoundary_of_mem_offsets {n : Nat} (h : n ∈ c.offsets) :
    p.IsBoundary n ∧ p.IsBoundary (n + 1) := by
  have hp : p = g.before ++ '\x7b' :: ([','].intercalate g.alternatives ++ '\x7d' :: g.after) := by
    rw [← text_of_group? hgroup, Group.text]
    simp only [List.append_assoc, List.cons_append]
  rcases List.mem_cons.mp h with rfl | hmem
  · rw [hcuts.opening]
    exact isBoundary_beside hp rfl
  · change n ∈ c.commas ++ [c.closing] at hmem
    rw [hcuts.ends, hcuts.opening] at hmem
    have hparts : p = g.before ++ ['\x7b'] ++ [','].intercalate g.alternatives ++ '\x7d' :: g.after := by
      rw [hp]
      simp only [List.append_assoc, List.cons_append, List.nil_append]
    refine isBoundary_of_mem_ends hparts rfl ?_
    rw [byteLength_append]
    exact hmem

/-- The pieces of a pattern are texts. -/
theorem fits : c.Fits p where
  before := (isBoundary_of_mem_offsets hgroup hcuts List.mem_cons_self).1
  after := by
    have hclosing : c.closing ∈ c.offsets := List.mem_cons_of_mem _ List.mem_concat_self
    exact (isBoundary_of_mem_offsets hgroup hcuts hclosing).2
  between := by
    intro s hs
    rcases of_mem_spansBetween hs with ⟨⟨k, hk, hstart⟩, hstop⟩
    have hstop := List.mem_cons_of_mem c.opening hstop
    rw [hstart]
    refine ⟨(isBoundary_of_mem_offsets hgroup hcuts hk).2,
      (isBoundary_of_mem_offsets hgroup hcuts hstop).1, ?_⟩
    rw [Cuts.spans, hcuts.ends, spansBetween_ends] at hs
    rw [← hstart]
    exact (le_of_mem_spansFrom hs).2

/-- What is rebuilt from the cuts is the pattern with one alternative in place of the group. -/
theorem rebuilt_eq : c.rebuilt p = g.alternatives.map fun a => g.before ++ a ++ g.after := by
  have hp : p = g.before ++ ['\x7b'] ++ [','].intercalate g.alternatives ++ ('\x7d' :: g.after) := by
    rw [← text_of_group? hgroup, Group.text]
    simp only [List.append_assoc, List.cons_append, List.nil_append]
  have hopening : c.opening + 1 = byteLength (g.before ++ ['\x7b']) := by
    rw [hcuts.opening, byteLength_append]
    rfl
  have hbefore : p.takeBytes c.opening = g.before := by
    rw [hcuts.opening, hp, List.append_assoc, List.append_assoc, takeBytes_append]
  have hslices : (c.spans.map fun s => p.slice s.start s.stop) = g.alternatives := by
    rw [Cuts.spans, hcuts.ends, spansBetween_ends, hopening, hp, slices_spansFrom rfl]
  have hafter : p.dropBytes (c.closing + 1) = g.after := by
    have hclosing : c.closing + 1 =
        byteLength (g.before ++ ['\x7b'] ++ [','].intercalate g.alternatives ++ ['\x7d']) := by
      rw [hcuts.closing_eq, hopening, byteLength_append _ ['\x7d'],
        byteLength_append _ ([','].intercalate g.alternatives)]
      rfl
    have hsplit : p =
        g.before ++ ['\x7b'] ++ [','].intercalate g.alternatives ++ ['\x7d'] ++ g.after := by
      rw [hp, List.append_assoc _ ['\x7d'], List.singleton_append]
    rw [hclosing, hsplit, dropBytes_append]
  rw [Cuts.rebuilt, hbefore, hafter, ← hslices, List.map_map]
  rfl

end Found

end Restyle.Brace
