import CryptoAudit.Report.Basic

/-!
# Console reports

One block for each finding, the most severe first and otherwise in the order of the scan, between a
line with their number and a line with the result.
-/

namespace CryptoAudit.Report.Console

/-- The mark of a severity, ten characters wide. -/
def severityTag : Severity → String
  | .critical => "[CRITICAL]"
  | .high => "[HIGH]    "
  | .medium => "[MEDIUM]  "
  | .low => "[LOW]     "
  | .info => "[INFO]    "

/-- Whether a finding is non-compliant, needs a look, or is in order. -/
def status (f : Finding) : String :=
  if f.isNonCompliant then "NON-COMPLIANT"
  else if f.hasUnresolved then "REVIEW"
  else "ok"

/-- The line on the severity and the API. -/
def headLine (f : Finding) : String :=
  "  " ++ severityTag f.severity ++ " " ++ f.category ++ " " ++ f.api ++
    " (" ++ status f ++ ")\n"

/-- The line on the place. -/
def placeLine (f : Finding) : String :=
  "           at " ++ f.className ++ ": " ++ f.methodSignature ++
    " line " ++ f.lineLabel ++ "\n"

/-- The line on the algorithm. -/
def algorithmLine (f : Finding) : String :=
  "           algorithm: " ++ f.algorithmLabel ++ " (" ++ f.provenance.label ++ ")" ++
    (if f.trace.isEmpty then "" else " via " ++ " -> ".intercalate f.trace) ++
    (if f.flagged then " [weak]" else "") ++ "\n"

/-- The line on the provider, if one is asked for. -/
def providerLine (f : Finding) : String :=
  if f.verdict = .notApplicable then ""
  else "           provider:  " ++ f.provider ++ " [" ++ f.verdict.label ++ "]\n"

/-- The block of a finding. -/
def block (f : Finding) : String :=
  headLine f ++ placeLine f ++ algorithmLine f ++ providerLine f ++ "\n"

/-- The line above the findings. -/
def header (count : Nat) : String := "\n  " ++ toString count ++ " finding(s) detected:\n\n"

/-- The line below the findings. -/
def resultLine (v : PolicyVerdict) : String :=
  "  Result: " ++ (if v.pass then "PASS" else "FAIL") ++ " (" ++ toString v.nonCompliantFindings ++
    " non-compliant, threshold: " ++ v.failThreshold.name ++ ", highest: " ++
    (match v.highestSeverity with | some s => s.name | none => "none") ++ ")\n\n"

/-- The findings from the most to the least severe, in the given order where they are equal. -/
def sorted (fs : List Finding) : List Finding :=
  fs.mergeSort fun a b => decide (b.severity ≤ a.severity)

/-- The report for a terminal. -/
def render (r : Report) : String :=
  if r.findings.isEmpty then "\n  No sensitive crypto API usage detected.\n\n"
  else
    header r.findings.length ++ String.join ((sorted r.findings).map block) ++ resultLine r.verdict

end CryptoAudit.Report.Console
