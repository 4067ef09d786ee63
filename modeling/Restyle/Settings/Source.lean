import Restyle.Settings
import Restyle.Failure

/-!
# Where Settings Come From

Fixed settings, or a file that is read afresh each time.

The file is looked up once, from the environment, and read before every operation, so that an edit
takes effect without a restart. A missing file is no failure: all settings have their defaults. A file
that cannot be read is one, but formatting goes on with the defaults rather than not at all, which is
what `snapshot` does.

## Main definitions

* `Environment`: The variables that are looked at, and the account's home directory.
* `Settings.Source`: Fixed settings or a file.
* `Source.load`: Reading the settings.
* `Source.snapshot`: Reading them, with the defaults in place of a failure.
* `Settings.defaultPath`: The settings file of an environment.
-/

namespace Restyle

/-- What is looked at outside the files: some variables, and the record of the account. -/
structure Environment where
  /-- The settings file. -/
  settingsFile : Option Text := none
  /-- The directory that the platform keeps settings in. -/
  settingsDirectory : Option Text := none
  home : Option Text := none
  /-- The home directory on record for the account. -/
  accountHome : Option Text := none
  /-- The address of the editor that the process was started from. -/
  editorAddress : Option Text := none
  deriving DecidableEq, Repr, Inhabited

/-- The names of the variables: the settings file, the directory of settings, the home directory and
    the address of the editor. -/
def Environment.variables : List Text :=
  ["STANDARD_FORMATTER_CONFIG".toList, "XDG_CONFIG_HOME".toList, "HOME".toList, "NVIM".toList]

/-- The home directory: the one that a variable names, or else the one on record. -/
def Environment.homeDirectory? (e : Environment) : Option Text :=
  (e.home.filter (· ≠ [])).or (e.accountHome.filter (· ≠ []))

namespace Settings

/-- Fixed settings, or a file. -/
inductive Source where
  | fixed (s : Settings)
  | file (path : Path)
  deriving DecidableEq, Repr, Inhabited

namespace Source

/-- Read the settings. -/
def load (tree : FileTree) : Source → Except Failure Settings
  | .fixed s => .ok s
  | .file path =>
    if !tree.contains path then .ok {}
    else
      match tree.readText path with
      | .error e => .error (.read path e)
      | .ok t => (Settings.ofText t).mapError (.settingsFile path)

/-- Read the settings, with the defaults in place of a failure. -/
def snapshot (tree : FileTree) (s : Source) : Settings :=
  match s.load tree with
  | .ok settings => settings
  | .error _ => {}

end Source

/-- The directory that the platform keeps settings in. A relative one does not count. -/
def platformDirectory? (e : Environment) : Option Path :=
  match e.settingsDirectory with
  | some t =>
    if Path.isAbsolute ⟨t⟩ then some ⟨t⟩ else belowHome
  | none => belowHome
where
  /-- The usual directory, below the home directory. -/
  belowHome : Option Path :=
    e.homeDirectory?.map fun home => Path.join ⟨home⟩ ⟨".config".toList⟩

/-- The settings file of an environment. -/
def defaultPath (e : Environment) : Except Failure Path :=
  match e.settingsFile with
  | some t => .ok ⟨t⟩
  | none =>
    match platformDirectory? e with
    | some dir => .ok ((dir.join ⟨directoryName⟩).join ⟨fileName⟩)
    | none => .error .noSettingsDirectory

end Settings

end Restyle
