import Restyle.Neovim.Value

/-!
# Events

The notifications that the registered hooks send.

A notification is a method and its arguments. One that is not known, or lacks what it has to say, is no
event. A command tells how many numbers its range was given with; without any it is for no lines in
particular.

## Main definitions

* `Notification`: What arrives.
* `Event`: What it means.
* `Event.ofNotification?`: Its meaning, if it has one.
-/

namespace Restyle.Neovim

/-- A notification: a method and its arguments. -/
structure Notification where
  method : Text
  arguments : List Value
  deriving DecidableEq, Repr

/-- What a notification means. -/
inductive Event where
  /-- The command, with the lines it is for, counted from one. -/
  | format (range : Option (Int × Int))
  /-- A buffer is about to be written. -/
  | willSave (buffer : Int)
  /-- The editor is about to exit. -/
  | detach
  deriving DecidableEq, Repr

namespace Event

/-- The lines that a command is for. -/
def rangeOf (arguments : List Value) : Option (Int × Int) := do
  let count ← (← arguments[0]?).int?
  let first ← (← arguments[1]?).int?
  let last ← (← arguments[2]?).int?
  if 0 < count then some (first, last) else none

/-- The meaning of a notification, if it has one. -/
def ofNotification? (n : Notification) : Option Event :=
  if n.method = "format".toList then some (.format (rangeOf n.arguments))
  else if n.method = "will_save".toList then
    (n.arguments.head?.bind Value.int?).map .willSave
  else if n.method = "detach".toList then some .detach
  else none

end Event

end Restyle.Neovim
