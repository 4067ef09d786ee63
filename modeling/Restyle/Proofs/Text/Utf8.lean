import Mathlib.Tactic.IntervalCases
import Restyle.Proofs.Effects
import Restyle.Text.Utf8

/-!
# UTF-8 and Back

Reading bytes as text and writing text as bytes are inverse to each other.

A form of more than one byte is a lead byte and continuation bytes with six bits each. What the decoder
holds back is described by the numbers it can still become: those whose leading bits are the ones held
back and whose next six bits are allowed. Taking a continuation byte cuts these numbers down to those
that have it, so both directions are one induction on how many bytes are due. That the ranges allowed
after the lead bytes leave out exactly the surrogates, the overlong forms and what lies past the last
character is used once, where a lead byte is taken.

## Main definitions

* `Utf8.continuation`: The last bytes of a number's form.
* `Utf8.Pending.Admits`: Whether bytes held back can become a number.
* `Utf8.Piece.bytes`: The bytes that a piece stands for.
* `Utf8.Continues`: A byte that continues a character.

## Theorems

* `Utf8.flatMap_bytes_pieces`: No byte is lost.
* `Utf8.pieces_encode_append`: The form of a character is one piece.
* `Utf8.decode?_eq_some_iff`: Bytes are read as a text exactly if they are its form.
* `Utf8.exists_encode`: A character that is not one byte has no byte of seven bits.
* `Text.toUtf8_intercalate`: Joined texts are joined in their bytes.
* `Text.length_toUtf8`: The length of a text is the number of its bytes.
-/

namespace Restyle.Utf8

/-- The last so many bytes of the form of a number. -/
def continuation : Nat → Nat → List UInt8
  | 0, _ => []
  | due + 1, v => UInt8.ofNat (v / 64 ^ due % 64 + 128) :: continuation due v

/-- Whether bytes held back can become a number. -/
structure Pending.Admits (p : Pending) (v : Nat) : Prop where
  due_pos : 0 < p.due
  bits : v / 64 ^ p.due = p.bits
  low_le : p.low.toNat ≤ v / 64 ^ (p.due - 1) % 64 + 128
  le_high : v / 64 ^ (p.due - 1) % 64 + 128 ≤ p.high.toNat

/-- The bytes that a piece stands for. -/
def Piece.bytes : Piece → List UInt8
  | .char c => String.utf8EncodeChar c
  | .gap bytes => bytes

/-- The bytes held back, in order. -/
def heldBytes : Option Pending → List UInt8
  | some p => p.held.reverse
  | none => []

/-- Bytes held back are the first of the form of whatever they can become. -/
structure Pending.Begins (p : Pending) : Prop where
  due_pos : 0 < p.due
  low_le : 0x80 ≤ p.low.toNat
  le_high : p.high.toNat ≤ 0xBF
  form : ∀ v, p.Admits v →
    String.utf8EncodeChar (Char.ofNat v) = p.held.reverse ++ continuation p.due v

/-! ### The forms of characters -/

theorem toNat_ofNat_of_isValidChar {v : Nat} (h : v.isValidChar) :
    (Char.ofNat v).val.toNat = v := by
  rw [Char.ofNat, dif_pos h]
  rfl

theorem encode_one {v : Nat} (h : v < 0x80) :
    String.utf8EncodeChar (Char.ofNat v) = [UInt8.ofNat v] := by
  have hv : v.isValidChar := .inl (by omega)
  rw [String.utf8EncodeChar.eq_1, toNat_ofNat_of_isValidChar hv, if_pos (by omega)]

theorem encode_two {v : Nat} (hl : 0x80 ≤ v) (hh : v < 0x800) :
    String.utf8EncodeChar (Char.ofNat v) = UInt8.ofNat (v / 64 + 0xC0) :: continuation 1 v := by
  have hv : v.isValidChar := .inl (by omega)
  have hlead : v / 64 % 32 = v / 64 := by omega
  rw [String.utf8EncodeChar.eq_1, toNat_ofNat_of_isValidChar hv, if_neg (by omega),
    if_pos (by omega), hlead]
  simp [continuation]

theorem encode_three {v : Nat} (hl : 0x800 ≤ v) (hh : v < 0x10000)
    (hs : v < 0xD800 ∨ 0xDFFF < v) :
    String.utf8EncodeChar (Char.ofNat v) = UInt8.ofNat (v / 4096 + 0xE0) :: continuation 2 v := by
  have hv : v.isValidChar := by unfold Nat.isValidChar; omega
  have hlead : v / 4096 % 16 = v / 4096 := by omega
  rw [String.utf8EncodeChar.eq_1, toNat_ofNat_of_isValidChar hv, if_neg (by omega),
    if_neg (by omega), if_pos (by omega), hlead]
  simp [continuation]

theorem encode_four {v : Nat} (hl : 0x10000 ≤ v) (hh : v < 0x110000) :
    String.utf8EncodeChar (Char.ofNat v) =
      UInt8.ofNat (v / 262144 + 0xF0) :: continuation 3 v := by
  have hv : v.isValidChar := .inr (by omega)
  have hlead : v / 262144 % 8 = v / 262144 := by omega
  rw [String.utf8EncodeChar.eq_1, toNat_ofNat_of_isValidChar hv, if_neg (by omega),
    if_neg (by omega), if_neg (by omega), hlead]
  simp [continuation]

/-! ### Taking a byte -/

theorem toNat_continuation_byte (n : Nat) : (UInt8.ofNat (n % 64 + 128)).toNat = n % 64 + 128 := by
  rw [UInt8.toNat_ofNat', Nat.mod_eq_of_lt (by omega)]

/-- The number that bytes held back and one byte more carry, if it goes on to become `v`. -/
theorem Pending.Admits.bits_step {p : Pending} {v : Nat} (h : p.Admits v) :
    p.bits * 64 + v / 64 ^ (p.due - 1) % 64 = v / 64 ^ (p.due - 1) := by
  have hpow : 64 ^ p.due = 64 ^ (p.due - 1) * 64 := by
    rw [← pow_succ, Nat.sub_add_cancel h.due_pos]
  rw [← h.bits, hpow, ← Nat.div_div_eq_div_mul]
  omega

/-- The state of the decoder after a byte that is allowed. -/
def Pending.next (p : Pending) (b : UInt8) : Pending :=
  { held := b :: p.held, bits := p.bits * 64 + (b.toNat - 0x80), due := p.due - 1 }

theorem Pending.next_bits (p : Pending) (b : UInt8) :
    (p.next b).bits = p.bits * 64 + (b.toNat - 0x80) := rfl

theorem advance_of_mem {p : Pending} {b : UInt8} (h : p.low ≤ b ∧ b ≤ p.high) :
    advance p b =
      if p.due ≤ 1 then ([.char (Char.ofNat (p.next b).bits)], none)
      else ([], some (p.next b)) := by
  rw [advance, if_pos h]
  rfl

/-- A number that is admitted after a byte was admitted before it, and has that byte. -/
theorem Pending.admits_of_next {p : Pending} {b : UInt8} {v : Nat} (h : p.low ≤ b ∧ b ≤ p.high)
    (hp : p.Begins) (hv : v / 64 ^ (p.due - 1) = (p.next b).bits) :
    p.Admits v ∧ UInt8.ofNat (v / 64 ^ (p.due - 1) % 64 + 128) = b := by
  have hlow := UInt8.le_iff_toNat_le.mp h.1
  have hhigh := UInt8.le_iff_toNat_le.mp h.2
  have hl := hp.low_le
  have hh := hp.le_high
  have hpow : 64 ^ p.due = 64 ^ (p.due - 1) * 64 := by
    rw [← pow_succ, Nat.sub_add_cancel hp.due_pos]
  have hmod : v / 64 ^ (p.due - 1) % 64 + 128 = b.toNat := by
    rw [hv, Pending.next_bits]
    omega
  have hdiv : v / 64 ^ p.due = p.bits := by
    rw [hpow, ← Nat.div_div_eq_div_mul, hv, Pending.next_bits]
    omega
  refine ⟨⟨hp.due_pos, hdiv, hmod ▸ hlow, hmod ▸ hhigh⟩, ?_⟩
  rw [hmod, UInt8.ofNat_toNat]

/-! ### From text to bytes and back -/

/-- Continuation bytes that finish a number are read as its character. -/
theorem piecesAfter_continuation {p : Pending} {v : Nat} (h : p.Admits v) (rest : List UInt8) :
    piecesAfter (some p) (continuation p.due v ++ rest) =
      .char (Char.ofNat v) :: piecesAfter none rest := by
  obtain ⟨held, bits, due, low, high⟩ := p
  -- What is held back changes with every byte, and so does the range that is allowed.
  induction due generalizing held bits low high with
  | zero => exact absurd h.due_pos (Nat.lt_irrefl 0)
  | succ due ih =>
      have hb := toNat_continuation_byte (v / 64 ^ due)
      have hrange : low ≤ UInt8.ofNat (v / 64 ^ due % 64 + 128) ∧
          UInt8.ofNat (v / 64 ^ due % 64 + 128) ≤ high := by
        rw [UInt8.le_iff_toNat_le, UInt8.le_iff_toNat_le, hb]
        exact ⟨h.low_le, h.le_high⟩
      have hbits : bits * 64 + v / 64 ^ due % 64 = v / 64 ^ due := h.bits_step
      rw [continuation, List.cons_append, piecesAfter, advance_of_mem hrange]
      simp only [Pending.next, hb, Nat.add_sub_cancel, hbits]
      cases due with
      | zero => simp [continuation]
      | succ due =>
          -- Any continuation byte may follow the first.
          have hnext : ∀ n : Nat, (0x80 : UInt8).toNat ≤ n % 64 + 128 ∧
              n % 64 + 128 ≤ (0xBF : UInt8).toNat := by
            intro n
            simp
            omega
          rw [if_neg (by omega), List.nil_append]
          exact ih _ _ _ _ ⟨Nat.succ_pos due, rfl, (hnext _).1, (hnext _).2⟩

/-! ### Lead bytes -/

/-- The state after the lead byte of two, with its bits. -/
def two (n : Nat) : Pending :=
  { held := [UInt8.ofNat (n + 0xC0)], bits := n, due := 1 }

/-- The state after the lead byte of three. -/
def three (n : Nat) : Pending :=
  { held := [UInt8.ofNat (n + 0xE0)], bits := n, due := 2
    low := if n = 0 then 0xA0 else 0x80, high := if n = 0xD then 0x9F else 0xBF }

/-- The state after the lead byte of four. -/
def four (n : Nat) : Pending :=
  { held := [UInt8.ofNat (n + 0xF0)], bits := n, due := 3
    low := if n = 0 then 0x90 else 0x80, high := if n = 4 then 0x8F else 0xBF }

theorem begin_two {n : Nat} (hl : 2 ≤ n) (hh : n < 32) :
    begin (UInt8.ofNat (n + 0xC0)) = ([], some (two n)) := by
  have hn : (UInt8.ofNat (n + 0xC0)).toNat = n + 0xC0 := by
    rw [UInt8.toNat_ofNat', Nat.mod_eq_of_lt (by omega)]
  grind [begin, two]

theorem begin_three {n : Nat} (h : n < 16) :
    begin (UInt8.ofNat (n + 0xE0)) = ([], some (three n)) := by
  have hn : (UInt8.ofNat (n + 0xE0)).toNat = n + 0xE0 := by
    rw [UInt8.toNat_ofNat', Nat.mod_eq_of_lt (by omega)]
  grind [begin, three]

theorem begin_four {n : Nat} (h : n < 5) :
    begin (UInt8.ofNat (n + 0xF0)) = ([], some (four n)) := by
  interval_cases n <;> rfl

theorem admits_two_iff {n v : Nat} : (two n).Admits v ↔ v / 64 = n := by
  constructor
  · intro h
    simpa [two] using h.bits
  · intro h
    refine ⟨Nat.one_pos, by simpa [two] using h, ?_, ?_⟩
    · simp [two]
    · simp [two]
      omega

theorem admits_three_iff {n v : Nat} (hn : n < 16) :
    (three n).Admits v ↔ v / 4096 = n ∧ 0x800 ≤ v ∧ (v < 0xD800 ∨ 0xDFFF < v) := by
  constructor
  · intro h
    have hbits := h.bits
    have hlow := h.low_le
    have hhigh := h.le_high
    -- Behind the first lead byte the range leaves out the overlong forms, and behind the fourteenth
    -- the surrogates.
    simp [three] at hbits hlow hhigh
    split_ifs at hlow hhigh <;> simp at hlow hhigh <;> omega
  · rintro ⟨h, hl, hs⟩
    refine ⟨Nat.two_pos, by simpa [three] using h, ?_, ?_⟩ <;> simp [three] <;>
      split_ifs <;> simp <;> omega

theorem admits_four_iff {n v : Nat} (hn : n < 5) :
    (four n).Admits v ↔ v / 262144 = n ∧ 0x10000 ≤ v ∧ v < 0x110000 := by
  constructor
  · intro h
    have hbits := h.bits
    have hlow := h.low_le
    have hhigh := h.le_high
    -- Behind the last lead byte the range ends with the last character.
    simp [four] at hbits hlow hhigh
    split_ifs at hlow hhigh <;> simp at hlow hhigh <;> omega
  · rintro ⟨h, hl, hs⟩
    refine ⟨Nat.succ_pos 2, by simpa [four] using h, ?_, ?_⟩ <;> simp [four] <;>
      split_ifs <;> simp <;> omega

/-- The form of a character is one piece. -/
theorem pieces_encode_append (c : Char) (rest : List UInt8) :
    pieces (String.utf8EncodeChar c ++ rest) = .char c :: pieces rest := by
  obtain ⟨v, hv, rfl⟩ : ∃ v : Nat, v.isValidChar ∧ Char.ofNat v = c :=
    ⟨c.toNat, c.valid, Char.ofNat_toNat c⟩
  unfold Nat.isValidChar at hv
  by_cases h1 : v < 0x80
  · have hbegin : begin (UInt8.ofNat v) = ([.char (Char.ofNat v)], none) := by
      have hn : (UInt8.ofNat v).toNat = v := by
        rw [UInt8.toNat_ofNat', Nat.mod_eq_of_lt (by omega)]
      simp only [begin, hn, if_pos h1]
    rw [encode_one h1, List.singleton_append, pieces, piecesAfter, hbegin]
    rfl
  -- Every form but the first is a lead byte and the continuation that it asks for.
  have hlead : ∀ {b p}, begin b = ([], some p) → p.Admits v →
      String.utf8EncodeChar (Char.ofNat v) = b :: continuation p.due v →
      pieces (String.utf8EncodeChar (Char.ofNat v) ++ rest) = .char (Char.ofNat v) :: pieces rest := by
    intro b p hbegin hp hform
    rw [hform, List.cons_append, pieces, piecesAfter, hbegin]
    exact piecesAfter_continuation hp rest
  by_cases h2 : v < 0x800
  · exact hlead (begin_two (by omega) (by omega)) (admits_two_iff.mpr rfl)
      (encode_two (by omega) h2)
  by_cases h3 : v < 0x10000
  · exact hlead (begin_three (by omega)) ((admits_three_iff (by omega)).mpr ⟨rfl, by omega, by omega⟩)
      (encode_three (by omega) h3 (by omega))
  · exact hlead (begin_four (by omega)) ((admits_four_iff (by omega)).mpr ⟨rfl, by omega, by omega⟩)
      (encode_four (by omega) (by omega))

theorem begins_two {n : Nat} (hl : 2 ≤ n) (hh : n < 32) : (two n).Begins where
  due_pos := Nat.one_pos
  low_le := Nat.le_refl 0x80
  le_high := Nat.le_refl 0xBF
  form v hv := by
    have hv := admits_two_iff.mp hv
    rw [encode_two (by omega) (by omega), hv]
    rfl

theorem begins_three {n : Nat} (h : n < 16) : (three n).Begins where
  due_pos := Nat.two_pos
  low_le := by
    unfold three
    split_ifs <;> simp
  le_high := by
    unfold three
    split_ifs <;> simp
  form v hv := by
    obtain ⟨hbits, hl, hs⟩ := (admits_three_iff h).mp hv
    rw [encode_three hl (by omega) hs, hbits]
    rfl

theorem begins_four {n : Nat} (h : n < 5) : (four n).Begins where
  due_pos := Nat.succ_pos 2
  low_le := by
    unfold four
    split_ifs <;> simp
  le_high := by
    unfold four
    split_ifs <;> simp
  form v hv := by
    obtain ⟨hbits, hl, hh⟩ := (admits_four_iff h).mp hv
    rw [encode_four hl hh, hbits]
    rfl

/-- A step of the decoder keeps every byte, and what it holds back can still become something. -/
structure Keeps (bytes : List UInt8) (r : List Piece × Option Pending) : Prop where
  bytes : r.1.flatMap Piece.bytes ++ heldBytes r.2 = bytes
  begins : ∀ p ∈ r.2, p.Begins

theorem keeps_lead {b : UInt8} {p : Pending} (hbegin : begin b = ([], some p)) (hp : p.Begins)
    (hheld : p.held = [b]) : Keeps [b] (begin b) := by
  rw [hbegin]
  exact ⟨by simp [heldBytes, hheld], by simpa using hp⟩

theorem keeps_begin (b : UInt8) : Keeps [b] (begin b) := by
  have hb : ∀ k ≤ b.toNat, UInt8.ofNat (b.toNat - k + k) = b := fun k hk => by
    rw [Nat.sub_add_cancel hk, UInt8.ofNat_toNat]
  by_cases h1 : b.toNat < 0x80
  · simp only [begin, if_pos h1]
    exact ⟨by simp [Piece.bytes, heldBytes, encode_one h1], by simp⟩
  by_cases hc : b.toNat < 0xC2
  · simp only [begin, if_neg h1, if_pos hc]
    exact ⟨by simp [Piece.bytes, heldBytes], by simp⟩
  by_cases h2 : b.toNat < 0xE0
  · have hlead := begin_two (n := b.toNat - 0xC0) (by omega) (by omega)
    rw [hb 0xC0 (by omega)] at hlead
    exact keeps_lead hlead (begins_two (by omega) (by omega)) (by rw [two, hb 0xC0 (by omega)])
  by_cases h3 : b.toNat < 0xF0
  · have hlead := begin_three (n := b.toNat - 0xE0) (by omega)
    rw [hb 0xE0 (by omega)] at hlead
    exact keeps_lead hlead (begins_three (by omega)) (by rw [three, hb 0xE0 (by omega)])
  by_cases h4 : b.toNat < 0xF5
  · have hlead := begin_four (n := b.toNat - 0xF0) (by omega)
    rw [hb 0xF0 (by omega)] at hlead
    exact keeps_lead hlead (begins_four (by omega)) (by rw [four, hb 0xF0 (by omega)])
  · have hgap : begin b = ([.gap [b]], none) := by
      simp only [begin]
      repeat rw [if_neg (by omega)]
    rw [hgap]
    exact ⟨by simp [Piece.bytes, heldBytes], by simp⟩

/-- What comes after a byte that is allowed still begins something. -/
theorem Pending.Begins.next {p : Pending} {b : UInt8} (hp : p.Begins)
    (h : p.low ≤ b ∧ b ≤ p.high) (hdue : 1 < p.due) : (p.next b).Begins where
  due_pos := Nat.sub_pos_of_lt hdue
  low_le := Nat.le_refl 0x80
  le_high := Nat.le_refl 0xBF
  form v hv := by
    obtain ⟨hadmits, hbyte⟩ := Pending.admits_of_next h hp hv.bits
    obtain ⟨due, hdue⟩ : ∃ due, p.due = due + 1 := ⟨p.due - 1, by omega⟩
    rw [hp.form v hadmits]
    rw [hdue, Nat.add_sub_cancel] at hbyte
    simp [Pending.next, hdue, continuation, hbyte]

theorem keeps_advance {p : Pending} (hp : p.Begins) (b : UInt8) :
    Keeps (p.held.reverse ++ [b]) (advance p b) := by
  by_cases h : p.low ≤ b ∧ b ≤ p.high
  · rw [advance_of_mem h]
    by_cases hdue : p.due ≤ 1
    · -- The last byte makes a character, whose form has to be what was held back and this byte.
      rw [if_pos hdue]
      have hone : p.due = 1 := Nat.le_antisymm hdue hp.due_pos
      obtain ⟨hadmits, hbyte⟩ :=
        Pending.admits_of_next (v := (p.next b).bits) h hp (by rw [hone, Nat.pow_zero, Nat.div_one])
      rw [hone] at hbyte
      refine ⟨?_, by simp⟩
      simp only [List.flatMap_cons, List.flatMap_nil, Piece.bytes, heldBytes, List.append_nil,
        hp.form _ hadmits, hone]
      rw [continuation, hbyte, continuation]
    · rw [if_neg hdue]
      refine ⟨by simp [heldBytes, Pending.next], ?_⟩
      simpa using hp.next h (Nat.lt_of_not_le hdue)
  · -- What was held back is a gap, and the byte starts afresh.
    have hb := keeps_begin b
    rw [advance, if_neg h]
    refine ⟨?_, hb.begins⟩
    rw [List.flatMap_cons, List.append_assoc, hb.bytes, Piece.bytes]

/-- No byte is lost, wherever the decoder is. -/
theorem flatMap_bytes_piecesAfter {pending : Option Pending} (h : ∀ p ∈ pending, p.Begins)
    (bytes : List UInt8) :
    (piecesAfter pending bytes).flatMap Piece.bytes = heldBytes pending ++ bytes := by
  induction bytes generalizing pending with
  | nil =>
      cases pending with
      | none => rfl
      | some p => simp [piecesAfter, Piece.bytes, heldBytes]
  | cons b bytes ih =>
      cases pending with
      | none =>
          have hb := keeps_begin b
          rw [piecesAfter, List.flatMap_append, ih hb.begins, ← List.append_assoc, hb.bytes]
          rfl
      | some p =>
          have hb := keeps_advance (h p rfl) b
          rw [piecesAfter, List.flatMap_append, ih hb.begins, ← List.append_assoc, hb.bytes,
            List.append_assoc]
          rfl

/-- No byte is lost. -/
theorem flatMap_bytes_pieces (bytes : List UInt8) :
    (pieces bytes).flatMap Piece.bytes = bytes :=
  flatMap_bytes_piecesAfter (by simp) bytes

/-- The form of a text is the text, piece by piece. -/
theorem pieces_toUtf8 (t : Text) : pieces t.toUtf8 = t.map .char := by
  induction t with
  | nil => rfl
  | cons c t ih =>
      rw [Text.toUtf8, List.flatMap_cons, pieces_encode_append, List.map_cons, ← ih, Text.toUtf8]

/-- Bytes are read as a text exactly if they are its form. -/
theorem decode?_eq_some_iff {bytes : List UInt8} {t : Text} :
    decode? bytes = some t ↔ bytes = t.toUtf8 := by
  have hchar : ∀ (piece : Piece) (c : Char),
      (match piece with | .char c => some c | .gap _ => none) = some c ↔ piece = .char c := by
    intro piece c
    cases piece <;> simp
  refine (mapM_eq_some_iff hchar).trans ⟨fun h => ?_, ?_⟩
  · rw [← flatMap_bytes_pieces bytes, h, List.flatMap_map]
    rfl
  · rintro rfl
    exact pieces_toUtf8 t

@[simp] theorem decode?_toUtf8 (t : Text) : decode? t.toUtf8 = some t :=
  decode?_eq_some_iff.mpr rfl

/-- In a text there is nothing to replace. -/
theorem decodeLossy_toUtf8 (t : Text) : decodeLossy t.toUtf8 = t := by
  rw [decodeLossy, pieces_toUtf8, List.map_map]
  exact List.map_id t

/-! ### The bytes of a text -/

/-- A character of seven bits is its own byte. -/
theorem encode_ascii {c : Char} (h : c.toNat < 0x80) :
    String.utf8EncodeChar c = [UInt8.ofNat c.toNat] := by
  have hform := encode_one h
  rwa [Char.ofNat_toNat] at hform

/-- A byte that continues a character. -/
def Continues (b : UInt8) : Prop :=
  0x80 ≤ b.toNat ∧ b.toNat < 0xC0

theorem continues_of_mem_continuation {due v : Nat} {b : UInt8} (h : b ∈ continuation due v) :
    Continues b := by
  induction due with
  | zero => exact absurd h List.not_mem_nil
  | succ due ih =>
      rcases List.mem_cons.mp h with rfl | hrest
      · rw [Continues, toNat_continuation_byte]
        omega
      · exact ih hrest

/-- Every other character is a lead byte and bytes that continue it, and none of them has seven bits. -/
theorem exists_encode {c : Char} (h : 0x80 ≤ c.toNat) :
    ∃ b due, String.utf8EncodeChar c = b :: continuation due c.toNat ∧ 0xC0 ≤ b.toNat := by
  obtain ⟨v, hv, rfl⟩ : ∃ v : Nat, v.isValidChar ∧ Char.ofNat v = c :=
    ⟨c.toNat, c.valid, Char.ofNat_toNat c⟩
  have hnat : (Char.ofNat v).toNat = v := toNat_ofNat_of_isValidChar hv
  rw [hnat] at h ⊢
  have hlead : ∀ n < 0x100, (UInt8.ofNat n).toNat = n := by
    intro n hn
    rw [UInt8.toNat_ofNat', Nat.mod_eq_of_lt hn]
  unfold Nat.isValidChar at hv
  by_cases h2 : v < 0x800
  · exact ⟨_, 1, encode_two h h2, by rw [hlead _ (by omega)]; omega⟩
  by_cases h3 : v < 0x10000
  · exact ⟨_, 2, encode_three (by omega) h3 (by omega), by rw [hlead _ (by omega)]; omega⟩
  · exact ⟨_, 3, encode_four (by omega) (by omega), by rw [hlead _ (by omega)]; omega⟩

end Restyle.Utf8

namespace Restyle.Text

theorem toUtf8_cons (c : Char) (t : Text) :
    toUtf8 (c :: t) = String.utf8EncodeChar c ++ toUtf8 t :=
  List.flatMap_cons

theorem toUtf8_append (a b : Text) : toUtf8 (a ++ b) = toUtf8 a ++ toUtf8 b :=
  List.flatMap_append

/-- Texts that are joined are joined in their bytes. -/
theorem toUtf8_intercalate (sep : Text) (parts : List Text) :
    toUtf8 (sep.intercalate parts) = (toUtf8 sep).intercalate (parts.map toUtf8) := by
  induction parts with
  | nil => rfl
  | cons part parts ih =>
      cases parts with
      | nil => rw [List.map_singleton, List.intercalate_singleton, List.intercalate_singleton]
      | cons next parts =>
          rw [List.map_cons] at ih
          rw [List.map_cons, List.map_cons, List.intercalate_cons_cons, List.intercalate_cons_cons,
            toUtf8_append, toUtf8_append, ih]

/-- The length that is counted is that of the bytes. -/
theorem length_toUtf8 (t : Text) : t.toUtf8.length = t.byteLength := by
  induction t with
  | nil => rfl
  | cons c t ih =>
      rw [toUtf8_cons, List.length_append, String.length_utf8EncodeChar, ih, byteLength]

end Restyle.Text
