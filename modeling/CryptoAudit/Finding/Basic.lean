import CryptoAudit.Finding.Severity
import CryptoAudit.Json.Document
import CryptoAudit.Json.Printer
import CryptoAudit.Program.Encoding
import CryptoAudit.Resolution.Basic

/-!
# Findings

A finding records the use of a watched API at one call site under one rule: the algorithm that is
asked for, as far as it is known, and the verdict on the provider. `Finding.toJson` and
`Finding.ofJson?` are its written form; an empty trace is left out.
-/

namespace CryptoAudit

open Document

namespace Provenance

/-- The name in reports for machines. -/
def name : Provenance → String
  | .directConstant => "direct_constant"
  | .tracedRecursively => "traced_recursively"
  | .unresolved => "unresolved"

/-- The name in reports for people. -/
def label : Provenance → String
  | .directConstant => "direct constant"
  | .tracedRecursively => "traced recursively"
  | .unresolved => "unresolved"

/-- The provenance of this name. -/
def ofName? : String → Option Provenance
  | "direct_constant" => some .directConstant
  | "traced_recursively" => some .tracedRecursively
  | "unresolved" => some .unresolved
  | _ => none

end Provenance

/-- The verdict on a provider. -/
inductive ProviderVerdict where
  | validated
  | notValidated
  | unresolved
  /-- No provider is asked for. -/
  | notApplicable
deriving DecidableEq, Inhabited

namespace ProviderVerdict

/-- The name in reports for machines. -/
def name : ProviderVerdict → String
  | .validated => "fips"
  | .notValidated => "non_fips"
  | .unresolved => "unresolved"
  | .notApplicable => "not_applicable"

/-- The name in reports for people. -/
def label : ProviderVerdict → String
  | .validated => "FIPS"
  | .notValidated => "Non-FIPS"
  | .unresolved => "unresolved"
  | .notApplicable => "default"

/-- The verdict of this name. -/
def ofName? : String → Option ProviderVerdict
  | "fips" => some .validated
  | "non_fips" => some .notValidated
  | "unresolved" => some .unresolved
  | "not_applicable" => some .notApplicable
  | _ => none

end ProviderVerdict

/-- A use of a watched API. -/
structure Finding where
  ruleId : String
  category : String
  /-- The called method with its declaring type. -/
  api : String
  severity : Severity
  description : String
  /-- The class of the method that contains the call. -/
  className : String
  methodSignature : String
  algorithm : String
  provenance : Provenance
  trace : List String
  /-- The algorithm is known and matches the pattern of the rule. -/
  flagged : Bool
  location : Option SourceLocation
  provider : String
  verdict : ProviderVerdict
deriving DecidableEq, Inhabited

namespace Finding

/-- The line of the call, if it is known. -/
def line (f : Finding) : Option Nat := f.location.map (·.line)

/-- The provider is not validated, or the algorithm is weak. -/
def isNonCompliant (f : Finding) : Bool := f.verdict == .notValidated || f.flagged

/-- The algorithm or the provider is not known. -/
def hasUnresolved (f : Finding) : Bool :=
  f.provenance == .unresolved || f.verdict == .unresolved

/-- A finding as JSON. -/
def toJson (f : Finding) : Json :=
  .object (
    [("rule_id", .text f.ruleId),
      ("category", .text f.category),
      ("api", .text f.api),
      ("severity", .text f.severity.name),
      ("description", .text f.description),
      ("class_name", .text f.className),
      ("method_signature", .text f.methodSignature),
      ("resolved_algorithm", .text f.algorithm),
      ("algorithm_provenance", .text f.provenance.name)] ++
    (if f.trace.isEmpty then [] else [("algorithm_trace", .texts f.trace)]) ++
    [("algorithm_flagged", .bool f.flagged),
      ("location", match f.location with | some l => l.toJson | none => .null),
      ("resolved_provider", .text f.provider),
      ("provider_verdict", .text f.verdict.name)])

/-- Reads a finding. -/
def ofJson? (v : Json) : Option Finding :=
  match record? [.fixed "rule_id", .fixed "category", .fixed "api", .fixed "severity",
      .fixed "description", .fixed "class_name", .fixed "method_signature",
      .fixed "resolved_algorithm", .fixed "algorithm_provenance", .loose "algorithm_trace",
      .fixed "algorithm_flagged", .fixed "location", .fixed "resolved_provider",
      .fixed "provider_verdict"] v with
  | some [ruleId, category, api, severity, description, className, methodSignature, algorithm,
      provenance, trace, flagged, location, provider, verdict] => do
    return {
      ruleId := ← required text? ruleId
      category := ← required text? category
      api := ← required text? api
      severity := ← required Severity.read? severity
      description := ← required text? description
      className := ← required text? className
      methodSignature := ← required text? methodSignature
      algorithm := ← required text? algorithm
      provenance := ← required (fun v => (name? v).bind Provenance.ofName?) provenance
      trace := ← orElse [] (list? text?) trace
      flagged := ← required bool? flagged
      location := ← optional SourceLocation.ofJson? location
      provider := ← required text? provider
      verdict := ← required (fun v => (name? v).bind ProviderVerdict.ofName?) verdict }
  | _ => none

/-- The text of a list of findings, from which the fingerprint of a report is computed. -/
def encodeAll (fs : List Finding) : String := (Json.list (fs.map toJson)).toCompact

end Finding

end CryptoAudit
