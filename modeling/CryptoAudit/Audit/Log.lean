import CryptoAudit.Audit
import CryptoAudit.Event

/-!
# The log of an audit

The events of an audit in the order in which they happen, up to the failure if there is one.
-/

namespace CryptoAudit.Audit.Log

/-- What the search has to tell at its next move. -/
def searchEvent? (p : Program) (bound : Resolution.DepthBound) (owner : MethodId)
    (s : Resolution.State) : Option Event := do
  let top ← s.path.head?
  let edge ← (p.edgesInto top.method)[top.nextEdge]?
  match ← Resolution.State.passed p edge top.parameter with
  | .literal value => return .parameterResolved owner value s.path.length
  | .parameter i =>
    if s.failed.contains (edge.caller, i) then none
    else if s.onPath.contains edge.caller then return .cycleMet edge.caller
    else if bound.reached s.path.length then return .depthReached edge.caller
    else none
  | .unsupported => none

/-- The events while an argument in the body of `owner` is resolved. -/
def resolution (p : Program) (bound : Resolution.DepthBound) (owner : MethodId) :
    Argument → List Event
  | .parameter i =>
    ((Resolution.State.start owner i).history p bound
      (Resolution.State.sound_start owner i)).filterMap (searchEvent? p bound owner)
  | .literal _ | .unsupported => []

/-- The events at a call site that a rule watches. -/
def ruleMatch (p : Program) (bound : Resolution.DepthBound) (method : Method) (site : CallSite)
    (rule : Rule) : List Event :=
  .ruleMatched method.qualifiedName rule.id (site.location.map (·.line)) ::
    match site.arguments[rule.algorithmIndex]? with
    | some arg => resolution p bound method.id arg
    | none => []

/-- The events in a method. -/
def scanMethod (p : Program) (index : RuleIndex) (bound : Resolution.DepthBound)
    (method : Method) : List Event :=
  match method.analyzableBody with
  | none => [.bodyMissing method.qualifiedName]
  | some sites =>
    sites.flatMap fun site => (index.matching site).flatMap (ruleMatch p bound method site)

/-- The events of a scan. -/
def scan (p : Program) (rules : RuleSet) (settings : AnalysisSettings) : List Event :=
  let index := RuleIndex.ofRules rules
  .scanStarted p.name p.methodsInOrder.length p.callGraph.edgeCount settings.parallel ::
    p.methodsInOrder.flatMap (scanMethod p index settings.depthBound) ++
    [.scanCompleted (Scan.scanProgram p rules settings).length]

/-- The event of loading rules. -/
def rules (fs : Files) : Option String → List Event
  | none => []
  | some path =>
    match RuleSet.load fs path with
    | .ok loaded => [.rulesLoaded path loaded.rules.length]
    | .error _ => []

/-- The files of a directory that are left out. -/
def skipped (fs : Files) (path : String) : List Event :=
  (Model.candidates fs path).filterMap fun c =>
    match c.read with
    | .ok _ => none
    | .error cause => some (.modelSkipped c.path cause)

/-- The events of loading a model. -/
def model (fs : Files) (path : String) : List Event :=
  if Model.isModel fs path then
    .modelLoading path :: skipped fs path ++
      match Model.sources fs path with
      | .ok (_, found) => (Model.droppedCallees found).map .calleeDropped
      | .error _ => []
  else []

/-- The events of an audit. -/
def run (fs : Files) (target : String) (options : AuditOptions) : List Event :=
  match settings fs target options with
  | .error _ => []
  | .ok s =>
    match RuleSet.loadOrStandard fs (rulesPath s options) with
    | .error _ => []
    | .ok loaded =>
      rules fs (rulesPath s options) ++ model fs target ++
        match Model.load fs target with
        | .error _ => []
        | .ok p => scan p loaded s.analysis

end CryptoAudit.Audit.Log
