import CryptoAudit.Failure
import CryptoAudit.Rule.Standard
import CryptoAudit.Toml.Reader
import CryptoAudit.Yaml.Reader

/-!
# Loading rules

A rule file is a record with a list of rules, in YAML or TOML as the extension of its name tells.
The file is read before its name is looked at.
-/

namespace CryptoAudit.RuleSet

/-- Reads the rules of a rule file. -/
def readRaw? {δ : Type} [Document δ] (v : δ) : Option (List RawRule) :=
  match Document.record? [.loose "rules"] v with
  | some [rules] => Document.orElse [] (Document.list? RawRule.read?) rules
  | _ => none

/-- The rules in the text of a rule file with this path. -/
def parse (path text : String) : Except Failure (List RawRule) :=
  match Text.lowerCase ((Path.extension? path).getD "") with
  | "yaml" | "yml" =>
    match (Yaml.parse? text).bind readRaw? with
    | some raw => .ok raw
    | none => .error .badYaml
  | "toml" =>
    match (Toml.parse? text).bind readRaw? with
    | some raw => .ok raw
    | none => .error .badToml
  | _ => .error (.ruleFormat path)

/-- Checked rules, or the failure. -/
def checked : Except RuleError RuleSet → Except Failure RuleSet
  | .ok rules => .ok rules
  | .error e => .error (.badRule e)

/-- The rules of the rule file at a path. -/
def load (fs : Files) (path : String) : Except Failure RuleSet := do
  match fs.read path with
  | .error e => throw (.badFile e)
  | .ok text => checked (RuleSet.ofRaw (← parse path text))

/-- The rules at a path, or the standard ones where none is given. -/
def loadOrStandard (fs : Files) : Option String → Except Failure RuleSet
  | some path => load fs path
  | none => checked Rule.standard

end CryptoAudit.RuleSet
