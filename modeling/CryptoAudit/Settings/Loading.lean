import CryptoAudit.Failure
import CryptoAudit.Settings
import CryptoAudit.Toml.Reader

/-!
# Loading settings

Settings are written in TOML. Where there is no settings file, the standard settings hold. The path
of a rule file is followed from the directory of the settings.
-/

namespace CryptoAudit.Settings

/-- The settings with the path of the rules as seen from where `path` is. -/
def relativeTo (path : String) (s : Settings) : Settings :=
  match Path.parent? path with
  | some directory => { s with rules := s.rules.map (Path.join directory) }
  | none => s

/-- The settings that a text holds. -/
def parse? (text : String) : Option Settings := (Toml.parse? text).bind read?

/-- The settings at a path. -/
def load (fs : Files) (path : String) : Except Failure Settings :=
  if fs.has path then
    match fs.read path with
    | .error e => .error (.badFile e)
    | .ok text =>
      match parse? text with
      | none => .error .badToml
      | some s => .ok (s.relativeTo path)
  else .ok standard

/-- The path of a target's own settings: in the target, or next to it. -/
def pathFor (fs : Files) (target : String) : String :=
  if fs.hasDirectory target then Path.join target fileName
  else
    match Path.parent? target with
    | some directory => Path.join directory fileName
    | none => fileName

end CryptoAudit.Settings
