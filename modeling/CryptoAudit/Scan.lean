import CryptoAudit.Finding.Basic
import CryptoAudit.Provider
import CryptoAudit.Resolution.Basic
import CryptoAudit.Rule.Index

/-!
# Scanning programs

A scan goes through the methods in the order of classes and declarations, through the call sites of
each method that can be analysed, and through the rules that apply to each call site. It makes one
finding for each of these.
-/

namespace CryptoAudit

/-- How a program is analysed. -/
structure AnalysisSettings where
  /-- The largest number of methods on a path of callers; 0 for any number. -/
  maxDepth : Nat
  /-- Methods may be analysed in any order. The findings do not depend on it. -/
  parallel : Bool
deriving DecidableEq, Inhabited

namespace AnalysisSettings

/-- The settings where none are given. -/
def standard : AnalysisSettings := ⟨Resolution.defaultDepth, true⟩

/-- The bound on the length of paths. -/
def depthBound (s : AnalysisSettings) : Resolution.DepthBound :=
  if s.maxDepth = 0 then none else some s.maxDepth

/-- Reads the settings. -/
def read? {δ : Type} [Document δ] (v : δ) : Option AnalysisSettings :=
  match Document.record? [.loose "max_depth", .loose "parallel"] v with
  | some [maxDepth, parallel] => do
    return {
      maxDepth := ← Document.orElse standard.maxDepth Document.index? maxDepth
      parallel := ← Document.orElse standard.parallel Document.bool? parallel }
  | _ => none

end AnalysisSettings

namespace Scan

/-- The finding for a rule at a call site, given what is known of the algorithm. -/
def finding (rule : Rule) (method : Method) (site : CallSite) (algorithm : ResolvedValue) :
    Finding :=
  let (provider, verdict) := Provider.evaluate site rule
  { ruleId := rule.id
    category := rule.category
    api := site.target
    severity := rule.severity
    description := rule.description
    className := method.className
    methodSignature := method.signature
    algorithm := algorithm.value
    provenance := algorithm.provenance
    trace := algorithm.trace
    flagged := algorithm.isResolved && rule.matchesAlgorithm algorithm.value
    location := site.location
    provider
    verdict }

/-- What is known of the algorithm that a call site passes for a rule. -/
def algorithmAt (p : Program) (bound : Resolution.DepthBound) (method : Method) (site : CallSite)
    (rule : Rule) : ResolvedValue :=
  match site.arguments[rule.algorithmIndex]? with
  | some arg => Resolution.resolve p bound method.id arg
  | none => .unresolved

/-- The findings in a method. -/
def scanMethod (p : Program) (index : RuleIndex) (bound : Resolution.DepthBound)
    (method : Method) : List Finding :=
  (method.analyzableBody.getD []).flatMap fun site =>
    (index.matching site).map fun rule =>
      finding rule method site (algorithmAt p bound method site rule)

/-- The findings in a program where paths of callers are bounded. -/
def scanWithin (p : Program) (rules : RuleSet) (bound : Resolution.DepthBound) : List Finding :=
  let index := RuleIndex.ofRules rules
  p.methodsInOrder.flatMap (scanMethod p index bound)

/-- The findings in a program. -/
def scanProgram (p : Program) (rules : RuleSet) (settings : AnalysisSettings) : List Finding :=
  scanWithin p rules settings.depthBound

end Scan

end CryptoAudit
