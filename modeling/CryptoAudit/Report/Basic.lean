import CryptoAudit.Finding.Policy

/-!
# Reports

What a report shows, and the formats in which it can be written. The moment at which a report is
made and the identifier that it is given do not depend on the audit, so they are given from outside.
-/

namespace CryptoAudit

/-- What a report shows. -/
structure Report where
  target : String
  findings : List Finding
  verdict : PolicyVerdict
  fingerprint : String
deriving DecidableEq, Inhabited

/-- What distinguishes two reports of the same audit. -/
structure Stamp where
  /-- The moment at which the report is made. -/
  time : String
  /-- An identifier of the report. -/
  guid : String
deriving DecidableEq, Inhabited

/-- The formats of reports. -/
inductive ReportFormat where
  | console
  | json
  | html
  | sarif
deriving DecidableEq, Inhabited

namespace ReportFormat

/-- The name of a format. -/
def name : ReportFormat → String
  | .console => "console"
  | .json => "json"
  | .html => "html"
  | .sarif => "sarif"

/-- The format of this name. -/
def ofName? : String → Option ReportFormat
  | "console" => some .console
  | "json" => some .json
  | "html" => some .html
  | "sarif" => some .sarif
  | _ => none

/-- The format that a user may mean. -/
def ofUser? (s : String) : Option ReportFormat :=
  match Text.lowerCase s with
  | "text" => some .console
  | t => ofName? t

end ReportFormat

/-- The name of the program in reports. -/
def toolName : String := "fipsscan"

/-- The version of the program. -/
def toolVersion : String := "0.1.0"

namespace Finding

/-- The algorithm, or a mark that it is not known. -/
def algorithmLabel (f : Finding) : String :=
  match f.provenance with
  | .unresolved => "<unresolved>"
  | .directConstant | .tracedRecursively => f.algorithm

/-- The line, or a mark that it is not known. -/
def lineLabel (f : Finding) : String :=
  match f.line with
  | some n => toString n
  | none => "?"

end Finding

end CryptoAudit
