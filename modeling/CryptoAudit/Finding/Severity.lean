import CryptoAudit.Document
import CryptoAudit.Text.LowerCase

/-!
# Severities

Five levels in order. A severity is written as its lower-case name; on the command line some
abbreviations and any mixture of case are understood too.
-/

namespace CryptoAudit

/-- How serious a finding is. -/
inductive Severity where
  | info
  | low
  | medium
  | high
  | critical
deriving DecidableEq, Inhabited

namespace Severity

/-- The place of a severity in their order. -/
def rank : Severity → Nat
  | .info => 0
  | .low => 1
  | .medium => 2
  | .high => 3
  | .critical => 4

instance : LE Severity := ⟨fun a b => a.rank ≤ b.rank⟩

instance (a b : Severity) : Decidable (a ≤ b) := inferInstanceAs (Decidable (a.rank ≤ b.rank))

instance : Max Severity := ⟨fun a b => if a ≤ b then b else a⟩

/-- The severities from the highest to the lowest. -/
def descending : List Severity := [.critical, .high, .medium, .low, .info]

/-- The name of a severity. -/
def name : Severity → String
  | .info => "info"
  | .low => "low"
  | .medium => "medium"
  | .high => "high"
  | .critical => "critical"

/-- The severity of this name. -/
def ofName? : String → Option Severity
  | "info" => some .info
  | "low" => some .low
  | "medium" => some .medium
  | "high" => some .high
  | "critical" => some .critical
  | _ => none

/-- The severity that a user may mean. -/
def ofUser? (s : String) : Option Severity :=
  match Text.lowerCase s with
  | "med" => some .medium
  | "crit" => some .critical
  | t => ofName? t

/-- Reads a severity from a document. -/
def read? {δ : Type} [Document δ] (v : δ) : Option Severity :=
  (Document.name? v).bind ofName?

end Severity

end CryptoAudit
