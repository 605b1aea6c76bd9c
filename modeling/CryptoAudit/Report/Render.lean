import CryptoAudit.Report.Console
import CryptoAudit.Report.Page
import CryptoAudit.Report.Sarif
import CryptoAudit.Report.Structured

/-!
# Writing reports

A report in each of the formats.
-/

namespace CryptoAudit.Report

/-- The report in a format. -/
def render (r : Report) (stamp : Stamp) : ReportFormat → String
  | .console => Console.render r
  | .json => Structured.render r stamp
  | .html => Page.render r stamp
  | .sarif => Sarif.render r stamp

end CryptoAudit.Report
