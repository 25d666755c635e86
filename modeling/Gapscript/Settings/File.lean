import Gapscript.Settings.Yaml
import Gapscript.Settings.Toml
import Gapscript.Settings.Saved
import Gapscript.Path

/-!
# Settings files

A settings file is read on top of the defaults, in the format that the ending of its name stands
for.
-/

namespace Gapscript

/-- Why a settings file cannot be used. -/
inductive SettingsFault where
  | unreadable (fault : ReadFault)
  | malformed (path : String)
  | unsupported (ending : String)
  | category (path reason : String)
deriving DecidableEq

/-- The wording of a fault. -/
def SettingsFault.message : SettingsFault → String
  | unreadable fault => "reading config: " ++ fault.message
  | malformed path => "parsing " ++ path
  | unsupported ending => "unsupported config format " ++ Text.quote ending
  | category path reason => path ++ ": " ++ reason

/-- The formats of settings files. -/
inductive FileFormat where
  | yaml
  | toml
deriving DecidableEq

namespace FileFormat

/-- The format that an ending stands for, in any case. -/
def ofEnding? (ending : String) : Option FileFormat :=
  match Text.lower ending with
  | ".yaml" | ".yml" => some yaml
  | ".toml" => some toml
  | _ => none

/-- The entries of a text in a format. -/
def read : FileFormat → Text → Option (List (String × Entry))
  | yaml => Yaml.read
  | toml => Toml.read

end FileFormat

namespace Settings

/-- The settings that a text gives, read in the format of the path it was found at. -/
def ofText (path content : String) : Except SettingsFault Settings :=
  match FileFormat.ofEnding? (Path.ending path) with
  | none => .error (.unsupported (Path.ending path))
  | some format =>
    match (format.read content.toList).bind (putAll {}) with
    | none => .error (.malformed path)
    | some s =>
      match s.categories with
      | .ok _ => .ok s
      | .error reason => .error (.category path reason)

/-- The settings of the file at a path. -/
def load (path : String) (target : PathTarget) : Except SettingsFault Settings :=
  match target.read path with
  | .ok content => ofText path content
  | .error fault => .error (.unreadable fault)

end Settings

end Gapscript
