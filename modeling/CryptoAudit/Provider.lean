import CryptoAudit.Finding.Basic
import CryptoAudit.Rule.Basic

/-!
# Providers

A provider that is named by a literal is validated if it is on the list; the names are compared
exactly. Providers that are not literals are not looked for in callers.
-/

namespace CryptoAudit.Provider

/-- The validated providers, in order of their names. -/
def validated : List String := ["BCFIPS", "OpenJCEPlusFIPS", "SunPKCS11"]

/-- The provider and the verdict for an argument. -/
def classify : Argument → String × ProviderVerdict
  | .literal name => (name, if name ∈ validated then .validated else .notValidated)
  | .parameter _ | .unsupported => ("unknown", .unresolved)

/-- The provider and the verdict at a call site, for a rule that may watch a provider. -/
def evaluate (site : CallSite) (rule : Rule) : String × ProviderVerdict :=
  match rule.providerIndex.bind (site.arguments[·]?) with
  | some arg => classify arg
  | none => ("none", .notApplicable)

end CryptoAudit.Provider
