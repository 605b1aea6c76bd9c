import CryptoAudit.Hash.Sha256
import CryptoAudit.Json.Printer
import CryptoAudit.Model.Loading
import CryptoAudit.Report.Basic
import CryptoAudit.Rule.Loading
import CryptoAudit.Settings.Loading

/-!
# Audits

An audit loads settings, rules and the model of a program, in this order, scans the program and
judges the findings. What is asked for wins over what the settings say.
-/

namespace CryptoAudit

/-- What may be asked for. -/
structure AuditOptions where
  /-- The path of the settings; by default, the target's own. -/
  settings : Option String
  /-- The path of the rules. -/
  rules : Option String
  /-- The threshold of the policy. -/
  failOn : Option Severity
deriving DecidableEq, Inhabited

namespace Audit

/-- The settings of an audit. -/
def settings (fs : Files) (target : String) (options : AuditOptions) : Except Failure Settings := do
  let path := options.settings.getD (Settings.pathFor fs target)
  let s ← Settings.load fs path
  let failOn := options.failOn.getD s.policy.failOn
  return { s with policy := { s.policy with failOn } }

/-- The path of the rules of an audit. -/
def rulesPath (s : Settings) (options : AuditOptions) : Option String :=
  options.rules.orElse fun _ => s.rules

/-- A digest of the findings. -/
def fingerprint (fs : List Finding) : String := Sha256.hex (Finding.encodeAll fs)

/-- The report on the findings in a program. -/
def report (name : String) (policy : Policy) (found : List Finding) : Report where
  target := name
  findings := policy.apply found
  verdict := policy.evaluate found
  fingerprint := fingerprint (policy.apply found)

/-- Audits the target. -/
def run (fs : Files) (target : String) (options : AuditOptions) : Except Failure Report := do
  let s ← settings fs target options
  let rules ← RuleSet.loadOrStandard fs (rulesPath s options)
  let p ← Model.load fs target
  return report p.name s.policy (Scan.scanProgram p rules s.analysis)

end Audit

end CryptoAudit
