/-!
# Text

Texts as lists of characters, measured in the bytes of their UTF-8 form.

Everything this library edits or matches is a text: buffers, paths, patterns, JSON documents. Editors
address positions by byte column, so lengths and offsets are counted in bytes, while a cut is only
ever made between two characters. Working on the list of characters makes the second part automatic:
`takeBytes` and `dropBytes` stop before a character that does not fit, and `floorBoundary` says which
byte offset they stop at.

## Main definitions

* `Text`: A list of characters.
* `Text.byteLength`: The number of bytes of the UTF-8 form.
* `Text.floorBoundary`: The largest character boundary not above a byte offset.
* `Text.charEnd`: The end of the character that contains a byte offset.
* `Text.slice`, `Text.splice`: Reading and replacing a span of bytes.
* `Text.segments`: The parts of a text between separators.
* `Text.withoutFinalNewline`: A text less one newline at its end.

## Theorems

* `takeBytes_append_dropBytes`: Cutting a text loses nothing.
* `byteLength_takeBytes`: A cut is made at a character boundary.
* `intercalate_segments`: Joining the segments gives the text back.
-/

namespace Restyle

/-- A text is the list of its characters. -/
abbrev Text := List Char

namespace Text

/-- The number of bytes of the UTF-8 form. -/
def byteLength : Text → Nat
  | [] => 0
  | c :: t => c.utf8Size + byteLength t

/-- The largest character boundary not above byte offset `n`. -/
def floorBoundary : Text → Nat → Nat
  | [], _ => 0
  | c :: t, n => if n < c.utf8Size then 0 else c.utf8Size + floorBoundary t (n - c.utf8Size)

/-- The end of the character that starts at or contains byte offset `n`, and the length of the text
    for an offset past its end. -/
def charEnd : Text → Nat → Nat
  | [], _ => 0
  | c :: t, n => if n < c.utf8Size then c.utf8Size else c.utf8Size + charEnd t (n - c.utf8Size)

/-- The longest beginning of at most `n` bytes. -/
def takeBytes : Text → Nat → Text
  | [], _ => []
  | c :: t, n => if n < c.utf8Size then [] else c :: takeBytes t (n - c.utf8Size)

/-- What `takeBytes` leaves. -/
def dropBytes : Text → Nat → Text
  | [], _ => []
  | c :: t, n => if n < c.utf8Size then c :: t else dropBytes t (n - c.utf8Size)

/-- The text between two byte offsets. -/
def slice (t : Text) (start stop : Nat) : Text :=
  (t.takeBytes stop).dropBytes start

/-- The text with the bytes between two offsets replaced. -/
def splice (t : Text) (start stop : Nat) (replacement : Text) : Text :=
  t.takeBytes start ++ replacement ++ t.dropBytes stop

/-- The first segment and those after it. -/
def splitSegments (sep : Char) : Text → Text × List Text
  | [] => ([], [])
  | c :: t =>
    let (first, rest) := splitSegments sep t
    if c = sep then ([], first :: rest) else (c :: first, rest)

/-- The parts of a text between separators: one more than there are separators. -/
def segments (sep : Char) (t : Text) : List Text :=
  (splitSegments sep t).1 :: (splitSegments sep t).2

/-- Whether a text ends in a newline. -/
def endsInNewline (t : Text) : Bool :=
  t.getLast? == some '\n'

/-- A text less one newline at its end, if it has one. -/
def withoutFinalNewline (t : Text) : Text :=
  if t.endsInNewline then t.dropLast else t

@[simp] theorem byteLength_append (a b : Text) :
    byteLength (a ++ b) = byteLength a + byteLength b := by
  induction a with
  | nil => simp [byteLength]
  | cons c a ih => simp [byteLength, ih, Nat.add_assoc]

/-- Cutting a text loses nothing. -/
theorem takeBytes_append_dropBytes (t : Text) (n : Nat) :
    takeBytes t n ++ dropBytes t n = t := by
  induction t generalizing n with
  | nil => rfl
  | cons c t ih =>
    rw [takeBytes, dropBytes]
    split
    · rfl
    · rw [List.cons_append, ih]

/-- A cut is made at the boundary that `floorBoundary` names. -/
theorem byteLength_takeBytes (t : Text) (n : Nat) :
    byteLength (takeBytes t n) = floorBoundary t n := by
  induction t generalizing n with
  | nil => rfl
  | cons c t ih =>
    rw [takeBytes, floorBoundary]
    split
    · rfl
    · rw [byteLength, ih]

/-- Joining the segments with the separator gives the text back. -/
theorem intercalate_segments (sep : Char) (t : Text) :
    [sep].intercalate (segments sep t) = t := by
  induction t with
  | nil => simp [segments, splitSegments]
  | cons c t ih =>
    rw [segments] at ih ⊢
    rw [splitSegments]
    by_cases h : c = sep
    · simp only [h, ↓reduceIte]
      rw [List.intercalate_cons_cons, ih]
      simp
    · simp only [h, ↓reduceIte]
      cases hr : (splitSegments sep t).2 with
      | nil => rw [hr] at ih; simpa using ih
      | cons s ss =>
        rw [hr, List.intercalate_cons_cons] at ih
        rw [List.intercalate_cons_cons, List.cons_append, List.cons_append, ih]

end Text

end Restyle
