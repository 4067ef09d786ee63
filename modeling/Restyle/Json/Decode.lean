import Restyle.Json.Scan

/-!
# Decoding JSON

Reading a document as a value of a wanted type, with the first fault from left to right.

A decoder is a function from outlines. The combinators below fix the order in which faults are met:
items and members are decoded in the order of the text, a member whose name is known is refused as
soon as the name comes up a second time, and what follows a value is looked at after the value.

A record is written as an object or as an array of its fields. In an object every field may be left
out, unknown members are skimmed, and a name given twice is an error. In an array the fields stand in
their order; those that may be left out may be missing from its end, and an item too many is no JSON
of that type at all, so it is reported as malformed.

## Main definitions

* `Json.Decoder`: A reader of outlines.
* `Json.Field`, `Decoder.record`: Records from objects or arrays.
* `Decoder.value`: Any value, nested at most so deep.
* `Json.decode`: Reading a whole document.
-/

namespace Restyle.Json

/-- A reader of a value of a certain type. -/
abbrev Decoder (α : Type) := Outline → Except Fault α

/-- A boolean. -/
def Decoder.bool : Decoder Bool
  | .bool b => .ok b
  | o => .error o.refusal

/-- A string. -/
def Decoder.text : Decoder Text
  | .string q => q.text
  | o => .error o.refusal

/-- The null value. -/
def Decoder.unit : Decoder Unit
  | .null => .ok ()
  | o => .error o.refusal

/-- Null, or a value of another type. -/
def Decoder.optional {α : Type} (decoder : Decoder α) : Decoder (Option α)
  | .null => .ok none
  | o => some <$> decoder o

/-- The items of an array. -/
def Items.decode {α : Type} (decoder : Decoder α) : Items → Except Fault (List α)
  | .close => .ok []
  | .stop fault => .error fault
  | .item value rest => do
    let a ← decoder value
    let as ← rest.decode decoder
    pure (a :: as)

/-- An array. -/
def Decoder.list {α : Type} (decoder : Decoder α) : Decoder (List α)
  | .array items => items.decode decoder
  | o => .error o.refusal

/-- The members of an object, gathered from the first to the last. -/
def Members.fold {α β : Type} (decoder : Decoder α) (insert : Text → α → β → β) :
    β → Members → Except Fault β
  | b, .close => .ok b
  | _, .stop fault | _, .dangling fault => .error fault
  | _, .unkeyed _ => .error .malformed
  | b, .member key value rest => do
    let name ← key.text
    let a ← decoder value
    rest.fold decoder insert (insert name a b)

/-- A field of a record: its name, how its value changes the record, and whether an array of fields
    may end before it. -/
structure Field (σ : Type) where
  name : Text
  set : Decoder (σ → σ)
  omissible : Bool

/-- A record from the members of an object. The names listed have come up before. -/
def Members.record {σ : Type} (fields : List (Field σ)) :
    List Text → σ → Members → Except Fault σ
  | _, r, .close => .ok r
  | _, _, .stop fault | _, _, .dangling fault => .error fault
  | _, _, .unkeyed _ => .error .malformed
  | seen, r, .member key value rest => do
    let name ← key.text
    match fields.find? (·.name = name) with
    | some field =>
      if name ∈ seen then throw .mistyped
      let update ← field.set value
      rest.record fields (name :: seen) (update r)
    | none =>
      value.skim
      rest.record fields seen r

/-- A record from the items of an array. -/
def Items.record {σ : Type} : List (Field σ) → σ → Items → Except Fault σ
  | [], r, .close => .ok r
  | [], _, .item _ _ => .error .malformed
  | _, _, .stop fault => .error fault
  | field :: fields, r, .close =>
    if field.omissible then Items.record fields r .close else .error .mistyped
  | field :: fields, r, .item value rest => do
    let update ← field.set value
    rest.record fields (update r)

/-- A record, given what it is before any field is set. -/
def Decoder.record {σ : Type} (fields : List (Field σ)) (initial : σ) : Decoder σ
  | .object members => members.record fields [] initial
  | .array items => items.record fields initial
  | o => .error o.refusal

mutual

/-- Any value whose arrays and objects nest at most so deep. -/
def Decoder.value : Nat → Decoder Json
  | _, .null => .ok .null
  | _, .bool b => .ok (.bool b)
  | _, .number (some n) => .ok (.number n)
  | _, .string q => Json.string <$> q.text
  | 0, .array _ | 0, .object _ => .error .malformed
  | depth + 1, .array items => Json.array <$> Decoder.values depth items
  | depth + 1, .object members => Json.object <$> Decoder.namedValues depth [] members
  | _, o => .error o.refusal

/-- The items of an array. -/
def Decoder.values : Nat → Items → Except Fault (List Json)
  | _, .close => .ok []
  | _, .stop fault => .error fault
  | depth, .item v rest => do
    let j ← Decoder.value depth v
    let js ← Decoder.values depth rest
    pure (j :: js)

/-- The members of an object after those gathered already. -/
def Decoder.namedValues : Nat → List (Text × Json) → Members → Except Fault (List (Text × Json))
  | _, js, .close => .ok js
  | _, _, .stop fault | _, _, .dangling fault => .error fault
  | _, _, .unkeyed _ => .error .malformed
  | depth, js, .member key v rest => do
    let name ← key.text
    let j ← Decoder.value depth v
    Decoder.namedValues depth (insert name j js) rest

end

/-- How deep arrays and objects may nest in a value that is read in full. -/
def maxDepth : Nat := 127

/-- A whole document: one value with nothing but blanks around it. -/
def decode {α : Type} (decoder : Decoder α) (source : Source) : Except Fault α := do
  let (o, after) := outline source
  let a ← decoder o
  unless (skipSpace after).isEmpty do throw .malformed
  pure a

/-- A whole document, given as text. -/
def decodeText {α : Type} (decoder : Decoder α) (t : Text) : Except Fault α :=
  decode decoder (Source.ofText t)

/-- A whole document of any type. -/
def parse (t : Text) : Except Fault Json :=
  decodeText (Decoder.value maxDepth) t

end Restyle.Json
