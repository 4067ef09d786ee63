import Restyle.Failure
import Restyle.Neovim.Value

/-!
# Refusals

What an editor answers in place of a value when it refuses a request.

There are two agreed forms, a number with a message and a message alone. An editor may still answer
with any other value. Such a value is written out in full, each part behind the name of its kind, and
stands for the message, so that nothing of it is lost to the user.

## Main definitions

* `Value.inspect`: A value written out.
* `RpcError.ofValue`: The refusal that a value stands for.
-/

namespace Restyle.Neovim.Value

/-- A character of a text that is written out between quotes. -/
def inspectChar (c : Char) : Text :=
  match c with
  | '"' | '\\' => ['\\', c]
  | '\n' => ['\\', 'n']
  | '\r' => ['\\', 'r']
  | '\t' => ['\\', 't']
  | _ =>
    if c.toNat = 0 then ['\\', '0']
    else if c.toNat < 0x20 ∨ 0x7f ≤ c.toNat ∧ c.toNat < 0xa0 then
      "\\u\x7b".toList ++ Nat.toDigits 16 c.toNat ++ ['\x7d']
    else [c]

/-- A list of written-out parts. -/
def inspectList (parts : List Text) : Text :=
  '[' :: [',', ' '].intercalate parts ++ [']']

/-- The bytes of a value. -/
def inspectBytes (bytes : List UInt8) : Text :=
  inspectList (bytes.map fun b => (toString b.toNat).toList)

/-- The name of a kind with what a value of the kind holds. -/
def inspectKind (kind : String) (content : Text) : Text :=
  kind.toList ++ '(' :: content ++ [')']

mutual

/-- A value written out. -/
def inspect : Value → Text
  | .nil => "Nil".toList
  | .bool b => inspectKind "Boolean" (if b then "true".toList else "false".toList)
  | .int n =>
    inspectKind "Integer" (inspectKind (if 0 ≤ n then "PosInt" else "NegInt") (toString n).toList)
  | .float decimal => inspectKind "F64" decimal
  | .str t =>
    inspectKind "String"
      ("Utf8String \x7b s: Ok(\"".toList ++ t.flatMap inspectChar ++ "\") \x7d".toList)
  | .bin bytes => inspectKind "Binary" (inspectBytes bytes)
  | .array items => inspectKind "Array" (inspectList (inspectItems items))
  | .map entries => inspectKind "Map" (inspectList (inspectEntries entries))
  | .ext kind bytes => inspectKind "Ext" ((toString kind).toList ++ ", ".toList ++ inspectBytes bytes)

/-- The items of an array. -/
def inspectItems : List Value → List Text
  | [] => []
  | v :: rest => inspect v :: inspectItems rest

/-- The entries of a map. -/
def inspectEntries : List (Value × Value) → List Text
  | [] => []
  | (k, v) :: rest => inspectKind "" (inspect k ++ ", ".toList ++ inspect v) :: inspectEntries rest

end

end Restyle.Neovim.Value

namespace Restyle.RpcError

open Neovim (Value)

/-- The refusal that a value stands for. -/
def ofValue : Value → RpcError
  | .str message => .other message
  | .array [.int code, .str message] => .numbered code message
  | .array items => .other (Value.inspectList (Value.inspectItems items))
  | v => .other v.inspect

end Restyle.RpcError
