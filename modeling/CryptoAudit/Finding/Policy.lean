import Std.Data.ExtTreeMap.Lemmas
import Std.Data.ExtTreeSet.Lemmas
import CryptoAudit.Finding.Basic

/-!
# Policies

A policy decides which findings count and whether they fail an audit. Findings of ignored
categories are dropped; a category may have a severity of its own. A finding is a violation if it is
non-compliant or, where the policy says so, if something in it is not resolved; an audit fails if a
violation is at least as severe as the threshold.

`Policy.apply` gives the findings that are reported and `Policy.evaluate` the verdict on them.
-/

namespace CryptoAudit

open Document

/-- The rules by which findings are judged. -/
structure Policy where
  failOn : Severity
  ignoreCategories : Std.ExtTreeSet String
  /-- The severities of categories that have one of their own. -/
  overrides : Std.ExtTreeMap String Severity
  failOnUnresolved : Bool

/-- The verdict of a policy. -/
structure PolicyVerdict where
  pass : Bool
  totalFindings : Nat
  effectiveFindings : Nat
  nonCompliantFindings : Nat
  highestSeverity : Option Severity
  failThreshold : Severity
deriving DecidableEq, Inhabited

namespace Policy

/-- The policy where none is given. -/
def standard : Policy := ⟨.high, ∅, ∅, false⟩

/-- The severity of a finding under the policy. -/
def severityOf (p : Policy) (f : Finding) : Severity := p.overrides[f.category]?.getD f.severity

/-- The finding counts against the program. -/
def isViolation (p : Policy) (f : Finding) : Bool :=
  f.isNonCompliant || (p.failOnUnresolved && f.hasUnresolved)

/-- The finding is of a category that is ignored. -/
def ignores (p : Policy) (f : Finding) : Bool := p.ignoreCategories.contains f.category

/-- The verdict on a list of findings. -/
def evaluate (p : Policy) (fs : List Finding) : PolicyVerdict :=
  let effective := fs.filter (!p.ignores ·)
  let violations := (effective.filter p.isViolation).map p.severityOf
  { pass := !violations.any (p.failOn ≤ ·)
    totalFindings := fs.length
    effectiveFindings := effective.length
    nonCompliantFindings := violations.length
    highestSeverity := (effective.map p.severityOf).max?
    failThreshold := p.failOn }

/-- The findings that are reported, with the severity that the policy gives them. -/
def apply (p : Policy) (fs : List Finding) : List Finding :=
  (fs.filter (!p.ignores ·)).map fun f => { f with severity := p.severityOf f }

section
variable {δ : Type} [Document δ]

/-- Reads the severities of categories. -/
def readOverrides? (v : δ) : Option (Std.ExtTreeMap String Severity) := do
  let members ← members? v
  let pairs ← members.mapM fun (k, v) => (Severity.read? v).map (k, ·)
  return pairs.foldl (fun m (k, s) => m.insert k s) ∅

/-- Reads a policy; what it does not say is as in the standard one. -/
def read? (v : δ) : Option Policy :=
  match record? [.loose "fail_on", .loose "ignore_categories", .loose "overrides",
      .loose "fail_on_unresolved"] v with
  | some [failOn, ignoreCategories, overrides, failOnUnresolved] => do
    let ignored ← orElse [] (list? text?) ignoreCategories
    return {
      failOn := ← orElse .high Severity.read? failOn
      ignoreCategories := Std.ExtTreeSet.ofList ignored
      overrides := ← orElse ∅ readOverrides? overrides
      failOnUnresolved := ← orElse false bool? failOnUnresolved }
  | _ => none

end

end Policy

namespace PolicyVerdict

/-- A verdict as JSON. -/
def toJson (v : PolicyVerdict) : Json :=
  .object [
    ("pass", .bool v.pass),
    ("total_findings", .nat v.totalFindings),
    ("effective_findings", .nat v.effectiveFindings),
    ("non_compliant_findings", .nat v.nonCompliantFindings),
    ("highest_severity", .ofText? (v.highestSeverity.map Severity.name)),
    ("fail_threshold", .text v.failThreshold.name)]

/-- Reads a verdict. -/
def ofJson? (v : Json) : Option PolicyVerdict :=
  match record? [.fixed "pass", .fixed "total_findings", .fixed "effective_findings",
      .fixed "non_compliant_findings", .fixed "highest_severity", .fixed "fail_threshold"] v with
  | some [pass, total, effective, nonCompliant, highest, threshold] => do
    return {
      pass := ← required bool? pass
      totalFindings := ← required index? total
      effectiveFindings := ← required index? effective
      nonCompliantFindings := ← required index? nonCompliant
      highestSeverity := ← optional Severity.read? highest
      failThreshold := ← required Severity.read? threshold }
  | _ => none

end PolicyVerdict

end CryptoAudit
