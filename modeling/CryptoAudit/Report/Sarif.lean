import Std.Data.ExtTreeMap.Lemmas
import CryptoAudit.Json.Printer
import CryptoAudit.Report.Basic

/-!
# Reports for code hosts

A report in the Static Analysis Results Interchange Format 2.1.0. Every finding is a result, those
in order with level `note`, so that the inventory is complete. The table of rules has each rule
once, in order of the identifiers, described by its first finding. Members of objects stand in order
of their names.
-/

namespace CryptoAudit.Report.Sarif

/-- The level of a severity. -/
def severityLevel : Severity → String
  | .critical | .high => "error"
  | .medium => "warning"
  | .low | .info => "note"

/-- The level of a finding. -/
def resultLevel (f : Finding) : String :=
  if f.isNonCompliant then severityLevel f.severity
  else if f.hasUnresolved then "warning"
  else "note"

/-- A finding in a sentence. -/
def message (f : Finding) : String :=
  f.api ++ " with algorithm " ++ f.algorithmLabel ++ " (" ++ f.provenance.label ++
    ") and provider " ++ f.provider ++ " [" ++ f.verdict.label ++ "]"

/-- The first finding of each rule. -/
def firstByRule (fs : List Finding) : Std.ExtTreeMap String Finding :=
  fs.foldl (fun m f => m.insertIfNew f.ruleId f) ∅

/-- An object with a text. -/
def textObject (s : String) : Json := .object [("text", .text s)]

/-- The description of a rule by one of its findings. -/
def descriptor (f : Finding) : Json :=
  .object [
    ("defaultConfiguration", .object [("level", .text (severityLevel f.severity))]),
    ("fullDescription", textObject f.description),
    ("id", .text f.ruleId),
    ("name", .text f.category),
    ("shortDescription", textObject f.api)]

/-- The table of rules. -/
def ruleTable (fs : List Finding) : List Json :=
  (firstByRule fs).toList.map fun (_, f) => descriptor f

/-- The file of a location, or else the class with slashes for dots. -/
def artifactUri (f : Finding) (l : SourceLocation) : String :=
  l.file.getD (String.ofList (f.className.toList.map fun c => if c = '.' then '/' else c))

/-- The location of a finding. -/
def location (f : Finding) (l : SourceLocation) : Json :=
  .object [("physicalLocation", .object [
    ("artifactLocation", .object [("uri", .text (artifactUri f l))]),
    ("region", .object [("startLine", .nat l.line)])])]

/-- The result of a finding. -/
def result (f : Finding) : Json :=
  .object (
    [("level", .text (resultLevel f))] ++
    (f.location.map fun l => ("locations", Json.list [location f l])).toList ++
    [("message", textObject (message f)),
      ("properties", .object [
        ("algorithm", .text f.algorithm),
        ("class", .text f.className),
        ("method", .text f.methodSignature),
        ("provider", .text f.provider),
        ("providerStatus", .text f.verdict.name),
        ("resolution", .text f.provenance.name),
        ("trace", .texts f.trace)]),
      ("ruleId", .text f.ruleId)])

/-- The address of the format's schema. -/
def schema : String :=
  "https://docs.oasis-open.org/sarif/sarif/v2.1.0/errata01/os/schemas/sarif-schema-2.1.0.json"

/-- The report as JSON. -/
def toJson (r : Report) (stamp : Stamp) : Json :=
  .object [
    ("$schema", .text schema),
    ("runs", .list [.object [
      ("automationDetails", .object [
        ("guid", .text stamp.guid),
        ("id", .text (toolName ++ "/" ++ r.target))]),
      ("properties", .object [("fingerprint", .text r.fingerprint)]),
      ("results", .list (r.findings.map result)),
      ("tool", .object [("driver", .object [
        ("name", .text toolName),
        ("rules", .list (ruleTable r.findings)),
        ("semanticVersion", .text toolVersion),
        ("version", .text toolVersion)])])]]),
    ("version", .text "2.1.0")]

/-- The report as JSON text. -/
def render (r : Report) (stamp : Stamp) : String := (toJson r stamp).toPretty

end CryptoAudit.Report.Sarif
