import CryptoAudit.Json.Printer
import CryptoAudit.Report.Basic

/-!
# Reports for machines

The whole report as one JSON object.
-/

namespace CryptoAudit.Report.Structured

/-- The report as JSON. -/
def toJson (r : Report) (stamp : Stamp) : Json :=
  .object [
    ("target", .text r.target),
    ("generated_at", .text stamp.time),
    ("fingerprint", .text r.fingerprint),
    ("findings", .list (r.findings.map Finding.toJson)),
    ("verdict", r.verdict.toJson)]

/-- The report as JSON text. -/
def render (r : Report) (stamp : Stamp) : String := (toJson r stamp).toPretty

end CryptoAudit.Report.Structured
