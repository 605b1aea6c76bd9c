import CryptoAudit.Scan
import CryptoAudit.Finding.Policy

/-!
# Settings

What a project may settle about its audits: the rules to use, how far values are traced, and the
policy by which findings are judged.
-/

namespace CryptoAudit

open Document

/-- The settings of a project. -/
structure Settings where
  /-- The path of a rule file; the standard rules are used where there is none. -/
  rules : Option String
  analysis : AnalysisSettings
  policy : Policy

namespace Settings

/-- The settings where none are given. -/
def standard : Settings := ⟨none, .standard, .standard⟩

/-- Reads settings; what they do not say is as in the standard ones. -/
def read? {δ : Type} [Document δ] (v : δ) : Option Settings :=
  match record? [.loose "rules", .loose "analysis", .loose "policy"] v with
  | some [rules, analysis, policy] => do
    return {
      rules := ← optional text? rules
      analysis := ← orElse .standard AnalysisSettings.read? analysis
      policy := ← orElse .standard Policy.read? policy }
  | _ => none

/-- The name of the settings file of a project. -/
def fileName : String := ".fipsscan.toml"

/-- The lines of a settings file to start from. -/
def starterLines : List String := [
  "# fipsscan configuration",
  "",
  "# Rule file (YAML or TOML). The built-in JCA rules are used when unset.",
  "# rules = \"fips-rules.yaml\"",
  "",
  "[analysis]",
  "# Maximum number of methods on one interprocedural resolution path (0 = unbounded).",
  "max_depth = 32",
  "# Analyze methods in parallel.",
  "parallel = true",
  "",
  "[policy]",
  "# Minimum severity of a non-compliant finding that fails the scan.",
  "fail_on = \"high\"",
  "",
  "# Treat unresolved algorithms and providers as non-compliant.",
  "fail_on_unresolved = false",
  "",
  "# Rule categories to drop from the report.",
  "# ignore_categories = [\"KeyFactory\"]",
  "",
  "# Per-category severity overrides.",
  "# [policy.overrides]",
  "# \"SecureRandom\" = \"info\"",
  ""]

/-- A settings file to start from. -/
def starter : String := "\n".intercalate starterLines

end Settings

end CryptoAudit
