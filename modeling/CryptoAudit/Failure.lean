import CryptoAudit.Files.Basic
import CryptoAudit.Model.Lowering
import CryptoAudit.Rule.Basic

/-!
# Failures of an audit

Why an audit has no report. Each cause has its words in `Failure.message`.
-/

namespace CryptoAudit

/-- Why an audit has no report. -/
inductive Failure where
  /-- The text of a model is malformed. -/
  | badModel (source : String)
  | badBody (e : Model.BadBody)
  | noModel (path : String)
  | badRule (e : RuleError)
  /-- The name of a rule file does not tell its format. -/
  | ruleFormat (path : String)
  | badFile (e : FileError)
  | badToml
  | badYaml
deriving DecidableEq

/-- The words for a failure. -/
def Failure.message : Failure → String
  | .badModel source => "Program model error in " ++ source ++ ": not a program model"
  | .badBody e => "Program model error in " ++ e.source ++ ": " ++ e.message
  | .noModel path => "No program model found at: " ++ path
  | .badRule e => "Rule error (" ++ e.label ++ "): " ++ e.message
  | .ruleFormat path => "Unsupported rule file format: " ++ path
  | .badFile e => "IO error: " ++ e.message
  | .badToml => "TOML parse error: not of the expected form"
  | .badYaml => "YAML parse error: not of the expected form"

end CryptoAudit
