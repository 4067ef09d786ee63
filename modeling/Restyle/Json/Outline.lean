import Restyle.Json

/-!
# Outlines

What a JSON text holds, up to the first thing wrong with it.

A reader that wants a certain type meets two kinds of trouble, a text that is not JSON and a value of
the wrong type, and has to report whichever comes first from left to right. An outline separates the
two. It is the tree of a text read as far as it goes, with a mark at the place where it stops, and it
is built without knowing the type. A decoder then walks the tree and comes upon either a value it does
not want or the mark.

The value of a member that no decoder asks for is only *skimmed*: its nesting may be of any depth, its
numbers of any size and its strings may hold lone surrogates or bytes that are not UTF-8. So where a
leaf is fit for skimming only, the outline says so, and where the two ways to read would report
different faults, it keeps both.

## Main definitions

* `Json.Fault`: What can be wrong with a document.
* `Json.Quoted`: A string, or what there is of it.
* `Json.Outline`: A value, with `Items` and `Members` for what is between brackets.
* `Outline.skim`: Passing over a value.
-/

namespace Restyle.Json

/-- What can be wrong with a document: it is not JSON, it ends too early, or it holds a value of
    another type than the wanted one. -/
inductive Fault where
  | malformed
  | truncated
  | mistyped
  deriving DecidableEq, Repr

/-- A string: read to its end, readable to its end but not as text, or broken off. A string that is
    broken off has one fault for a reader of its text and one for a reader that passes over it. -/
inductive Quoted where
  | whole (t : Text)
  | unreadable
  | cut (strict skimmed : Fault)
  deriving DecidableEq, Repr

mutual

/-- A value as far as it can be read. -/
inductive Outline where
  /-- The text ends where a value is due. -/
  | missing
  /-- No value starts here, or the literal or number that starts here is broken off. -/
  | junk (strict skimmed : Fault)
  | null
  | bool (b : Bool)
  /-- A number; one that is out of range has no value. -/
  | number (value : Option Number)
  | string (q : Quoted)
  | array (items : Items)
  | object (members : Members)

/-- What follows the opening bracket of an array, or an item of it. -/
inductive Items where
  | close
  /-- Neither a comma nor the closing bracket. -/
  | stop (fault : Fault)
  | item (value : Outline) (rest : Items)

/-- What follows the opening brace of an object, or a member of it. -/
inductive Members where
  | close
  /-- Neither a comma nor the closing brace. -/
  | stop (fault : Fault)
  /-- A comma with no name behind it. -/
  | dangling (fault : Fault)
  /-- The first thing in the object is not a string. -/
  | unkeyed (first : Outline)
  | member (key : Quoted) (value : Outline) (rest : Members)

end

instance : Inhabited Outline := ⟨.missing⟩

/-- The text of a string. -/
def Quoted.text : Quoted → Except Fault Text
  | .whole t => .ok t
  | .unreadable => .error .malformed
  | .cut strict _ => .error strict

/-- Passing over a string. -/
def Quoted.skim : Quoted → Except Fault Unit
  | .cut _ skimmed => .error skimmed
  | _ => .ok ()

mutual

/-- Passing over a value. -/
def Outline.skim : Outline → Except Fault Unit
  | .missing => .error .truncated
  | .junk _ skimmed => .error skimmed
  | .null | .bool _ | .number _ => .ok ()
  | .string q => q.skim
  | .array items => items.skim
  | .object members => members.skim

/-- Passing over the items of an array. -/
def Items.skim : Items → Except Fault Unit
  | .close => .ok ()
  | .stop fault => .error fault
  | .item value rest => do
    value.skim
    rest.skim

/-- Passing over the members of an object. -/
def Members.skim : Members → Except Fault Unit
  | .close => .ok ()
  | .stop fault | .dangling fault => .error fault
  | .unkeyed _ => .error .malformed
  | .member key value rest => do
    key.skim
    value.skim
    rest.skim

end

/-- The fault of a value that is not of the wanted type. A scalar is read before it is refused, so a
    fault inside it comes first; an array or an object is refused at its bracket. -/
def Outline.refusal : Outline → Fault
  | .missing => .truncated
  | .junk strict _ => strict
  | .number none => .malformed
  | .string .unreadable => .malformed
  | .string (.cut strict _) => strict
  | _ => .mistyped

end Restyle.Json
