import CryptoAudit.Main
import CryptoAudit.Program.Encoding
import CryptoAudit.Proofs.Resolution.Memory
import CryptoAudit.Proofs.Resolution.Recursion
import CryptoAudit.Proofs.Resolution.Chain
import CryptoAudit.Proofs.Resolution.Renaming
import CryptoAudit.Proofs.Resolution.Slice
import CryptoAudit.Proofs.Resolution.Termination
import CryptoAudit.Proofs.Resolution.Depth
import CryptoAudit.Proofs.Dataflow.Fixpoint
import CryptoAudit.Proofs.Dataflow.Paths
import CryptoAudit.Proofs.Dataflow.Execution
import CryptoAudit.Proofs.Dataflow.Worklist
import CryptoAudit.Proofs.Model.Lowering
import CryptoAudit.Proofs.Model.Classes
import CryptoAudit.Proofs.Model.Reordering
import CryptoAudit.Proofs.Program.Consistency
import CryptoAudit.Proofs.Model.Enumeration
import CryptoAudit.Proofs.Resolution.Growth
import CryptoAudit.Proofs.Json.RoundTrip
import CryptoAudit.Proofs.Json.Record
import CryptoAudit.Proofs.Program.Encoding
import CryptoAudit.Proofs.Model.Encoding
import CryptoAudit.Proofs.Finding.Encoding
import CryptoAudit.Proofs.Rule.Index
import CryptoAudit.Proofs.Scan.CallChain
import CryptoAudit.Proofs.Scan.Soundness
import CryptoAudit.Proofs.Scan.Provenance
import CryptoAudit.Proofs.Scan.Occurrences
import CryptoAudit.Proofs.Scan.LoadOrder
import CryptoAudit.Proofs.Command.Gate
import CryptoAudit.Proofs.Program.RoundTrip
import CryptoAudit.Proofs.Scan.Rereading
import CryptoAudit.Proofs.Command.Effects
import CryptoAudit.Proofs.Report.Markup
import CryptoAudit.Proofs.Report.Verdict
import CryptoAudit.Proofs.Audit.Threshold
import CryptoAudit.Proofs.Model.Rejection
import CryptoAudit.Proofs.Model.Binding
import CryptoAudit.Proofs.Rule.Validation
import CryptoAudit.Proofs.Files.Walk
import CryptoAudit.Proofs.Model.Loading
import CryptoAudit.Proofs.Report.Sarif
import CryptoAudit.Proofs.Report.Structured
import CryptoAudit.Proofs.Regex.Matching
import CryptoAudit.Proofs.Report.Console
import CryptoAudit.Proofs.Resolution.Failures
import CryptoAudit.Proofs.Regex.Language
import CryptoAudit.Proofs.Rule.WeakCiphers
import CryptoAudit.Proofs.Dataflow.Semilattice
import CryptoAudit.Proofs.Program.Predecessors
import CryptoAudit.Proofs.Report.Escape
