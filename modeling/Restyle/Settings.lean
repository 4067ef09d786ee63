import Restyle.Style
import Restyle.Json.Printer
import Restyle.Settings.Scopes

/-!
# Settings

What the user can set, and the document it is kept in.

All settings have a default, so a document may hold any part of them. Formatting on save can be
decided for each language scope on its own; a scope that leaves it open follows the general setting.

## Main definitions

* `Settings`: The effective settings.
* `Settings.formatsOnSave`: Whether a document of a scope is formatted when it is saved.
* `Settings.ofText`: Reading a document.
* `Settings.document`: Writing one.
-/

namespace Restyle

/-- The effective settings. -/
structure Settings where
  formatOnSave : Bool := false
  style : Style := .standard
  /-- Whether the style follows from what a project depends on. -/
  checkStyleDevDependencies : Bool := false
  /-- Whether the options in a manifest can exclude a file. -/
  honorPackageConfig : Bool := true
  usePrettier : Bool := true
  /-- The program that runs the libraries. -/
  nodePath : Text := "node".toList
  scopes : Scopes := .empty
  deriving DecidableEq, Repr, Inhabited

namespace Settings

/-- The directory for the settings file, below the one the platform has for settings. -/
def directoryName : Text := "standard-formatter".toList

/-- The name of the settings file. -/
def fileName : Text := "config.json".toList

/-- Whether a document of a scope is formatted when it is saved. -/
def formatsOnSave (s : Settings) (scope : Option Text) : Bool :=
  ((scope.bind s.scopes.get?).bind (·.formatOnSave)).getD s.formatOnSave

open Json (Decoder)

/-- The overrides of one scope. -/
def overridesDecoder : Decoder ScopeOverrides :=
  Decoder.record
    [{ name := "formatOnSave".toList
       set := fun o => (fun v r => { r with formatOnSave := v }) <$> Decoder.optional .bool o
       omissible := false }]
    {}

/-- The overrides of all scopes. -/
def scopesDecoder : Decoder Scopes
  | .object members => members.fold overridesDecoder Scopes.insert .empty
  | o => .error o.refusal

/-- The fields of a settings document, in the order in which they are written. -/
def fields : List (Json.Field Settings) :=
  [{ name := "formatOnSave".toList
     set := fun o => (fun v s => { s with formatOnSave := v }) <$> Decoder.bool o
     omissible := true },
   { name := "style".toList
     set := fun o => (fun v s => { s with style := v }) <$> Style.decoder o
     omissible := true },
   { name := "checkStyleDevDependencies".toList
     set := fun o => (fun v s => { s with checkStyleDevDependencies := v }) <$> Decoder.bool o
     omissible := true },
   { name := "honorPackageConfig".toList
     set := fun o => (fun v s => { s with honorPackageConfig := v }) <$> Decoder.bool o
     omissible := true },
   { name := "usePrettier".toList
     set := fun o => (fun v s => { s with usePrettier := v }) <$> Decoder.bool o
     omissible := true },
   { name := "nodePath".toList
     set := fun o => (fun v s => { s with nodePath := v }) <$> Decoder.text o
     omissible := true },
   { name := "scopes".toList
     set := fun o => (fun v s => { s with scopes := v }) <$> scopesDecoder o
     omissible := true }]

/-- Settings in a document. What is left out has its default. -/
def decoder : Decoder Settings :=
  Decoder.record fields {}

/-- The settings a document holds. -/
def ofText (t : Text) : Except Json.Fault Settings :=
  Json.decodeText decoder t

/-- The overrides of a scope, as a value. One that is left open is left out. -/
def overridesJson (o : ScopeOverrides) : Json :=
  .object (o.formatOnSave.map fun b => ("formatOnSave".toList, Json.bool b)).toList

/-- The settings as a value, with the scopes listed in a given order. -/
def toJsonWith (s : Settings) (entries : List (Text × ScopeOverrides)) : Json :=
  .object
    [("formatOnSave".toList, .bool s.formatOnSave),
     ("style".toList, .string s.style.name),
     ("checkStyleDevDependencies".toList, .bool s.checkStyleDevDependencies),
     ("honorPackageConfig".toList, .bool s.honorPackageConfig),
     ("usePrettier".toList, .bool s.usePrettier),
     ("nodePath".toList, .string s.nodePath),
     ("scopes".toList, .object (entries.map fun e => (e.1, overridesJson e.2)))]

/-- The settings as a value. -/
def toJson (s : Settings) : Json :=
  s.toJsonWith s.scopes.entries

/-- The document that holds the settings in full. -/
def document (s : Settings) : Text :=
  s.toJson.pretty

end Settings

end Restyle
