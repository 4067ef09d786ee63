import Restyle.Json.Number
import Restyle.Json.Outline
import Restyle.Text.Utf8

/-!
# Scanning JSON

From the pieces of a text to its outline.

A document is scanned as pieces of UTF-8, because a child process may answer with bytes that are none.
Such bytes can only stand in a string, and make it unreadable there; anywhere else they are junk.

Strings are scanned one piece at a time by a small machine. It remembers how far into an escape it is
and whether the first half of a surrogate pair waits for the second. A half that stays alone makes the
string unreadable from there on, so a later end of the text is no longer the first fault. The four
digits of an escape are counted in bytes: if fewer than four bytes are left the text ends too early,
whatever they are.

Values nest, so their scanner counts down a number that no text can exhaust: every step that nests
consumes a piece, and two steps are taken for each.

## Main definitions

* `Json.Source`: The pieces of a document.
* `Json.scanString`: A string, from behind its opening quote.
* `Json.scanNumber`: A number, from behind its sign.
* `Json.outline`: The outline of a document, and what comes after it.
-/

namespace Restyle.Json

open Utf8 (Piece)

/-- The pieces of a document. -/
abbrev Source := List Piece

/-- A text as a source. -/
def Source.ofText (t : Text) : Source :=
  t.map Piece.char

/-- Whether a source holds at least so many bytes. -/
def Source.hasBytes : Nat → Source → Bool
  | 0, _ => true
  | _ + 1, [] => false
  | n + 1, p :: rest => hasBytes (n + 1 - p.size) rest

/-- The blanks of JSON. -/
def isSpace : Piece → Bool
  | .char c => c == ' ' || c == '\n' || c == '\t' || c == '\r'
  | .gap _ => false

/-- A source from its first piece that is not blank. -/
def skipSpace (s : Source) : Source :=
  s.dropWhile isSpace

/-- The value of a hexadecimal digit. -/
def hexValue? (c : Char) : Option Nat :=
  if '0' ≤ c ∧ c ≤ '9' then some (c.toNat - '0'.toNat)
  else if 'a' ≤ c ∧ c ≤ 'f' then some (c.toNat - 'a'.toNat + 10)
  else if 'A' ≤ c ∧ c ≤ 'F' then some (c.toNat - 'A'.toNat + 10)
  else none

/-- The character that a letter stands for behind a backslash. -/
def escaped? (c : Char) : Option Char :=
  match c with
  | '"' => some '"'
  | '\\' => some '\\'
  | '/' => some '/'
  | 'b' => some '\x08'
  | 'f' => some '\x0c'
  | 'n' => some '\n'
  | 'r' => some '\r'
  | 't' => some '\t'
  | _ => none

/-- How far into an escape a string scanner is. -/
inductive Escape where
  | none
  | backslash
  /-- So many digits are due, after those with this value. -/
  | digits (due value : Nat)
  deriving DecidableEq, Repr

/-- What a string scanner remembers: the characters so far, newest first, whether a gap and whether a
    lone surrogate was met, the first half of a pair that waits for the second, and the escape it is
    in. -/
structure StringState where
  chars : Text := []
  gap : Bool := false
  lone : Bool := false
  high : Option Nat := none
  escape : Escape := .none
  deriving DecidableEq, Repr

namespace StringState

/-- A half of a pair that still waits stays alone. -/
def settle (s : StringState) : StringState :=
  { s with lone := s.lone || s.high.isSome, high := none, escape := .none }

/-- The state after a character. -/
def push (s : StringState) (c : Char) : StringState :=
  { s.settle with chars := c :: s.chars }

/-- The state after a gap. -/
def pushGap (s : StringState) : StringState :=
  { s.settle with gap := true }

/-- The state after an escape for a UTF-16 unit. -/
def pushUnit (s : StringState) (unit : Nat) : StringState :=
  if 0xD800 ≤ unit ∧ unit < 0xDC00 then { s.settle with high := some unit }
  else if 0xDC00 ≤ unit ∧ unit < 0xE000 then
    match s.high with
    | some high =>
      { s with
        chars := Char.ofNat ((high - 0xD800) * 0x400 + (unit - 0xDC00) + 0x10000) :: s.chars
        high := none
        escape := .none }
    | none => { s.settle with lone := true }
  else s.push (Char.ofNat unit)

/-- The string that ends in a state. -/
def close (s : StringState) : Quoted :=
  if s.gap || s.lone || s.high.isSome then .unreadable else .whole s.chars.reverse

/-- The string that breaks off in a state. -/
def cut (s : StringState) (fault : Fault) : Quoted :=
  .cut (if s.lone then .malformed else fault) fault

end StringState

/-- A string, from behind its opening quote, and what comes after it. -/
def scanString (s : StringState) : Source → Quoted × Source
  | [] => (s.cut .truncated, [])
  | p :: rest =>
    match s.escape, p with
    | .none, .gap _ => scanString s.pushGap rest
    | .none, .char c =>
      if c = '"' then (s.close, rest)
      else if c = '\\' then scanString { s with escape := .backslash } rest
      else if c.toNat < 0x20 then (s.cut .malformed, [])
      else scanString (s.push c) rest
    | .backslash, .char 'u' => scanString { s with escape := .digits 4 0 } rest
    | .backslash, .char c =>
      match escaped? c with
      | some e => scanString (s.push e) rest
      | none => (s.settle.cut .malformed, [])
    | .backslash, .gap _ => (s.settle.cut .malformed, [])
    | .digits due value, p =>
      match p with
      | .char c =>
        match hexValue? c with
        | some d =>
          if due ≤ 1 then scanString (s.pushUnit (value * 16 + d)) rest
          else scanString { s with escape := .digits (due - 1) (value * 16 + d) } rest
        | none => (s.cut (if Source.hasBytes due (p :: rest) then .malformed else .truncated), [])
      | .gap _ => (s.cut (if Source.hasBytes due (p :: rest) then .malformed else .truncated), [])

/-- The value of a decimal digit. -/
def digit? : Piece → Option Nat
  | .char c => if '0' ≤ c ∧ c ≤ '9' then some (c.toNat - '0'.toNat) else none
  | .gap _ => none

/-- The digits at the beginning of a source, and what comes after them. -/
def scanDigits : Source → List Nat × Source
  | [] => ([], [])
  | p :: rest =>
    match digit? p with
    | some d =>
      let (ds, after) := scanDigits rest
      (d :: ds, after)
    | none => ([], p :: rest)

/-- A number with no digit where one is due. Where the text ends, only a reader of the number says
    so. -/
def digitDue : Source → Outline × Source
  | [] => (.junk .truncated .malformed, [])
  | _ => (.junk .malformed .malformed, [])

/-- A number, from behind the digits of its fraction. -/
def scanExponent (l : Literal) : Source → Outline × Source
  | .char c :: rest =>
    if c = 'e' ∨ c = 'E' then
      let (down, rest) := match rest with
        | .char '+' :: rest => (false, rest)
        | .char '-' :: rest => (true, rest)
        | rest => (false, rest)
      match scanDigits rest with
      | ([], after) => digitDue after
      | (ds, after) => (.number { l with exponent := some (down, ds) }.number?, after)
    else (.number l.number?, .char c :: rest)
  | s => (.number l.number?, s)

/-- A number, from behind the digits before its point. -/
def scanFraction (l : Literal) : Source → Outline × Source
  | .char '.' :: rest =>
    match scanDigits rest with
    | ([], after) => digitDue after
    | (ds, after) => scanExponent { l with fraction := some ds } after
  | s => scanExponent l s

/-- A number, from behind its sign. It starts with a zero alone or with another digit. -/
def scanNumber (negative : Bool) (s : Source) : Outline × Source :=
  match scanDigits s with
  | ([], after) => digitDue after
  | (0 :: _ :: _, _) => (.junk .malformed .malformed, [])
  | (ds, after) => scanFraction { negative, whole := ds } after

/-- A literal name, from behind its first letter. -/
def scanName (value : Outline) : Text → Source → Outline × Source
  | [], s => (value, s)
  | _ :: _, [] => (.junk .truncated .truncated, [])
  | c :: cs, p :: rest =>
    if p = .char c then scanName value cs rest else (.junk .malformed .malformed, [])

mutual

/-- A value and what comes after it. -/
def scanValue : Nat → Source → Outline × Source
  | 0, _ => (.junk .malformed .malformed, [])
  | fuel + 1, s =>
    match skipSpace s with
    | [] => (.missing, [])
    | .gap _ :: _ => (.junk .malformed .malformed, [])
    | .char c :: rest =>
      match c with
      | '"' =>
        let (q, after) := scanString {} rest
        (.string q, after)
      | '[' =>
        match skipSpace rest with
        | [] => (.array (.stop .truncated), [])
        | .char ']' :: after => (.array .close, after)
        | rest =>
          let (items, after) := scanItems fuel rest
          (.array items, after)
      | '\x7b' =>
        match skipSpace rest with
        | [] => (.object (.stop .truncated), [])
        | .char '\x7d' :: after => (.object .close, after)
        | .char '"' :: rest =>
          let (members, after) := scanMembers fuel rest
          (.object members, after)
        | rest => (.object (.unkeyed (scanValue fuel rest).1), [])
      | 'n' => scanName .null ['u', 'l', 'l'] rest
      | 't' => scanName (.bool true) ['r', 'u', 'e'] rest
      | 'f' => scanName (.bool false) ['a', 'l', 's', 'e'] rest
      | '-' => scanNumber true rest
      | c =>
        if (digit? (.char c)).isSome then scanNumber false (.char c :: rest)
        else (.junk .malformed .malformed, [])

/-- The items of an array, from where the first is due. -/
def scanItems : Nat → Source → Items × Source
  | 0, _ => (.stop .malformed, [])
  | fuel + 1, s =>
    let (value, rest) := scanValue fuel s
    match skipSpace rest with
    | [] => (.item value (.stop .truncated), [])
    | .char ']' :: after => (.item value .close, after)
    | .char ',' :: rest =>
      let (items, after) := scanItems fuel rest
      (.item value items, after)
    | _ => (.item value (.stop .malformed), [])

/-- The members of an object, from behind the opening quote of the first name. -/
def scanMembers : Nat → Source → Members × Source
  | 0, _ => (.stop .malformed, [])
  | fuel + 1, s =>
    let (key, rest) := scanString {} s
    match skipSpace rest with
    | [] => (.member key .missing (.stop .truncated), [])
    | .char ':' :: rest =>
      let (value, rest) := scanValue fuel rest
      match skipSpace rest with
      | [] => (.member key value (.stop .truncated), [])
      | .char '\x7d' :: after => (.member key value .close, after)
      | .char ',' :: rest =>
        match skipSpace rest with
        | [] => (.member key value (.dangling .truncated), [])
        | .char '"' :: rest =>
          let (members, after) := scanMembers fuel rest
          (.member key value members, after)
        | _ => (.member key value (.dangling .malformed), [])
      | _ => (.member key value (.stop .malformed), [])
    | _ => (.member key (.junk .malformed .malformed) (.stop .malformed), [])

end

/-- The outline of a document, and what comes after it. -/
def outline (s : Source) : Outline × Source :=
  scanValue (2 * s.length + 2) s

end Restyle.Json
