import Mathlib.Data.List.Basic
import Restyle.Proofs.Text.Spans
import Restyle.Proofs.Text.Utf8

/-!
# Texts as Bytes

What can be seen of a text in its bytes: where its characters meet, and where its lines end.

A byte says by itself whether it continues a character, so a program that holds a text as bytes finds the
places between characters without decoding it. And a newline is one byte that is part of no other
character, so it finds the ends of lines by looking for that byte. Both agree with what is said of the
characters, one character at a time.

## Main definitions

* `IsCharBoundary`: An offset at which a byte continues no character, or the end.

## Theorems

* `isCharBoundary_iff`: These are the offsets at which a text can be cut.
* `newline_not_mem_toUtf8`: A text without newlines has no byte of one.
* `map_stop_dropLast_spansFrom`: Each span but the last ends at a newline, and each newline ends one.
-/

namespace Restyle

/-- The form of a character is a byte that begins it, and bytes that continue it. -/
theorem Utf8.exists_encode_cons (c : Char) :
    ∃ b rest, String.utf8EncodeChar c = b :: rest ∧ ¬ Continues b ∧ ∀ x ∈ rest, Continues x := by
  by_cases hc : c.toNat < 0x80
  · refine ⟨_, [], encode_ascii hc, ?_, fun x hx => absurd hx List.not_mem_nil⟩
    rw [Continues, UInt8.toNat_ofNat', Nat.mod_eq_of_lt (by omega)]
    omega
  · rcases exists_encode (Nat.le_of_not_lt hc) with ⟨b, due, hform, hlead⟩
    refine ⟨b, _, hform, fun h => ?_, fun x hx => continues_of_mem_continuation hx⟩
    exact absurd h.2 (Nat.not_lt.mpr hlead)

namespace Text

/-- An offset at which no character goes on: the byte there continues none, or there is no byte left. -/
def IsCharBoundary (t : Text) (n : Nat) : Prop :=
  n = t.toUtf8.length ∨ ∃ b, t.toUtf8[n]? = some b ∧ ¬ Utf8.Continues b

/-- In the first character an offset is a boundary if it is where that starts. -/
theorem isCharBoundary_cons_of_lt {c : Char} {t : Text} {n : Nat} (h : n < c.utf8Size) :
    IsCharBoundary (c :: t) n ↔ n = 0 := by
  rcases Utf8.exists_encode_cons c with ⟨b, rest, hform, hbegins, hcontinues⟩
  have hsize : c.utf8Size = rest.length + 1 := by
    rw [← String.length_utf8EncodeChar, hform, List.length_cons]
  rw [IsCharBoundary, toUtf8_cons, hform]
  cases n with
  | zero => simp [hbegins]
  | succ n =>
      have hlt : n < rest.length := by omega
      have hbyte : (b :: rest ++ t.toUtf8)[n + 1]? = some rest[n] := by
        rw [List.cons_append, List.getElem?_cons_succ, List.getElem?_append_left hlt,
          List.getElem?_eq_getElem hlt]
      have hgoes := hcontinues rest[n] (List.getElem_mem hlt)
      rw [hbyte, List.length_append, List.length_cons]
      simp only [Option.some.injEq, exists_eq_left', hgoes, not_true_eq_false, or_false]
      omega

/-- Behind the first character the boundaries are those of the rest. -/
theorem isCharBoundary_cons_add (c : Char) (t : Text) (n : Nat) :
    IsCharBoundary (c :: t) (c.utf8Size + n) ↔ IsCharBoundary t n := by
  rw [IsCharBoundary, IsCharBoundary, toUtf8_cons, ← String.length_utf8EncodeChar,
    List.length_append, List.getElem?_append_right (Nat.le_add_right _ _), Nat.add_sub_cancel_left,
    Nat.add_left_cancel_iff]

/-- The places between characters are the offsets at which a text can be cut. -/
theorem isCharBoundary_iff {t : Text} {n : Nat} : t.IsCharBoundary n ↔ t.IsBoundary n := by
  induction t generalizing n with
  | nil =>
      simp only [IsCharBoundary, IsBoundary, floorBoundary, toUtf8, List.flatMap_nil,
        List.length_nil, List.getElem?_nil, reduceCtorEq, false_and, exists_false, or_false, eq_comm]
  | cons c t ih =>
      rw [IsBoundary, floorBoundary]
      by_cases hn : n < c.utf8Size
      · rw [if_pos hn, isCharBoundary_cons_of_lt hn, eq_comm]
      · obtain ⟨k, rfl⟩ : ∃ k, n = c.utf8Size + k := ⟨n - c.utf8Size, by omega⟩
        rw [if_neg hn, isCharBoundary_cons_add, ih, Nat.add_sub_cancel_left, Nat.add_left_cancel_iff]
        rfl

/-- A text without newlines has no byte of one. -/
theorem newline_not_mem_toUtf8 {t : Text} (h : '\n' ∉ t) : (10 : UInt8) ∉ t.toUtf8 := by
  intro hmem
  rcases List.mem_flatMap.mp hmem with ⟨c, hc, hbyte⟩
  by_cases hascii : c.toNat < 0x80
  · rw [Utf8.encode_ascii hascii, List.mem_singleton] at hbyte
    have hnat := congrArg UInt8.toNat hbyte
    rw [UInt8.toNat_ofNat', Nat.mod_eq_of_lt (by omega)] at hnat
    have hnewline : c = '\n' := Char.toNat_inj.mp hnat.symm
    exact h (hnewline ▸ hc)
  · -- Every byte of another character has more than seven bits.
    rcases Utf8.exists_encode (Nat.le_of_not_lt hascii) with ⟨b, due, hform, hlead⟩
    rw [hform] at hbyte
    rcases List.mem_cons.mp hbyte with rfl | hrest
    · exact absurd hlead (by decide)
    · exact absurd (Utf8.continues_of_mem_continuation hrest).1 (by decide)

theorem toUtf8_newline : toUtf8 ['\n'] = [10] :=
  rfl

/-- Each span of a line but the last ends at the byte of a newline, and there are no others. -/
theorem map_stop_dropLast_spansFrom (n : Nat) {lines : List Text}
    (h : ∀ line ∈ lines, '\n' ∉ line) :
    (spansFrom n lines).dropLast.map Span.stop =
      List.idxsOf 10 (toUtf8 (['\n'].intercalate lines)) n := by
  induction lines generalizing n with
  | nil => rfl
  | cons line lines ih =>
      have hfree : ∀ k, List.idxsOf 10 line.toUtf8 k = [] := fun k =>
        List.idxsOf_eq_nil_iff.mpr fun b hb => beq_eq_false_iff_ne.mpr fun heq =>
          newline_not_mem_toUtf8 (h line List.mem_cons_self) (heq ▸ hb)
      cases lines with
      | nil =>
          rw [List.intercalate_singleton, hfree]
          rfl
      | cons next lines =>
          have hrest := ih (n + line.byteLength + 1) fun l hl => h l (List.mem_cons_of_mem line hl)
          have hjoined : toUtf8 (['\n'].intercalate (line :: next :: lines)) =
              line.toUtf8 ++ 10 :: toUtf8 (['\n'].intercalate (next :: lines)) := by
            rw [List.intercalate_cons_cons, toUtf8_append, toUtf8_append, List.append_assoc]
            rfl
          rw [spansFrom, spansFrom, List.dropLast_cons_cons, ← spansFrom, List.map_cons, hrest, hjoined,
            List.idxsOf_append, hfree, List.nil_append, List.idxsOf_cons, length_toUtf8]
          rfl

end Text

end Restyle
