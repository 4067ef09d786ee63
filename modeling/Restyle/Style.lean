import Restyle.Json.Decode

/-!
# Styles

The formatting conventions a document can have.

There are two packages that fix a document in place, and they differ in one point, whether a statement
ends in a semicolon. A document without a style is never formatted. Everything else about a style is a
fixed name: how settings spell it, the package that fixes it, and the section of a manifest that holds
its options. A document without a style still has such a section, because whether a file is eligible
is asked before its style is looked at.

## Main definitions

* `Style`: The conventions.
* `Style.name`, `Style.ofName?`: The spelling in settings.
* `Style.package?`, `Style.ofPackage?`: The package that fixes a document.
* `Style.optionsKey`: The section of a manifest with the options of the package.
* `Style.ofDependencies`: The style a project declares.
* `Style.decoder`: A style in a JSON document.

## Theorems

* `ofName?_name`: A spelling reads back.
-/

namespace Restyle

/-- A formatting convention. -/
inductive Style where
  /-- Formatting is skipped. -/
  | unstyled
  /-- No semicolons. -/
  | standard
  /-- Semicolons after every statement. -/
  | semiStandard
  deriving DecidableEq, Repr, Inhabited

namespace Style

/-- The spelling in settings. -/
def name : Style → Text
  | .unstyled => "none".toList
  | .standard => "standard".toList
  | .semiStandard => "semi-standard".toList

/-- The style with a spelling. -/
def ofName? (t : Text) : Option Style :=
  [unstyled, standard, semiStandard].find? (·.name = t)

/-- The package that fixes a document. -/
def package? : Style → Option Text
  | .unstyled => none
  | .standard => some "standard".toList
  | .semiStandard => some "semistandard".toList

/-- The style that a package fixes a document in. -/
def ofPackage? (package : Text) : Option Style :=
  [standard, semiStandard].find? (·.package? = some package)

/-- The section of a manifest with the options of the package. -/
def optionsKey : Style → Text
  | .semiStandard => "semistandard".toList
  | .unstyled | .standard => "standard".toList

/-- Whether a statement ends in a semicolon. -/
def semicolons : Style → Bool
  | .semiStandard => true
  | .unstyled | .standard => false

/-- The style a project declares by the packages its development depends on. -/
def ofDependencies (dependencies : List (Text × Json)) : Style :=
  if (Json.lookup? "standard".toList dependencies).isSome then .standard
  else if (Json.lookup? "semistandard".toList dependencies).isSome then .semiStandard
  else .unstyled

/-- A style in a document, by its name alone. -/
def decodeName (q : Json.Quoted) : Except Json.Fault Style := do
  match ofName? (← q.text) with
  | some s => pure s
  | none => throw .mistyped

/-- A style in a document: its name, or an object with its name for the only member and null for the
    value. Anything that starts otherwise is refused unread, and so is what stands for the name in an
    object if it is no string. -/
def decoder : Json.Decoder Style
  | .string q => decodeName q
  | .missing => .error .truncated
  | .object (.unkeyed _) | .object .close => .error .malformed
  | .object (.stop fault) | .object (.dangling fault) => .error fault
  | .object (.member key value rest) => do
    let style ← decodeName key
    Json.Decoder.unit value
    match rest with
    | .close => pure style
    | .stop fault => throw fault
    | _ => throw .malformed
  | _ => .error .malformed

/-- A spelling reads back. -/
@[simp] theorem ofName?_name (s : Style) : ofName? s.name = some s := by
  cases s <;> decide

end Style

end Restyle
