import CryptoAudit.Failure

/-!
# Events

What an audit has to tell while it runs, besides its result. An event is shown as a message with a
level and named fields.
-/

namespace CryptoAudit

/-- How much an event matters. -/
inductive EventLevel where
  | trace
  | debug
  | info
  | warn
deriving DecidableEq, Inhabited

/-- The name of a level. -/
def EventLevel.name : EventLevel → String
  | .trace => "TRACE"
  | .debug => "DEBUG"
  | .info => "INFO"
  | .warn => "WARN"

/-- Something that happens in an audit. -/
inductive Event where
  | rulesLoaded (path : String) (count : Nat)
  | modelLoading (path : String)
  | modelSkipped (file : String) (cause : Failure)
  | calleeDropped (dropped : Model.DroppedCallee)
  | scanStarted (program : String) (methods edges : Nat) (parallel : Bool)
  | bodyMissing (method : String)
  | ruleMatched (method rule : String) (line : Option Nat)
  /-- A parameter of `owner` was traced to a literal over a path of `depth` methods. -/
  | parameterResolved (owner : MethodId) (value : String) (depth : Nat)
  | cycleMet (method : MethodId)
  | depthReached (method : MethodId)
  | scanCompleted (findings : Nat)
deriving DecidableEq

namespace Event

/-- The level of an event. -/
def level : Event → EventLevel
  | .rulesLoaded .. | .modelLoading .. | .bodyMissing .. | .ruleMatched .. => .debug
  | .modelSkipped .. | .calleeDropped .. => .warn
  | .scanStarted .. | .scanCompleted .. => .info
  | .parameterResolved .. | .cycleMet .. | .depthReached .. => .trace

/-- The message of an event. -/
def message : Event → String
  | .rulesLoaded .. => "loaded rule file"
  | .modelLoading .. => "loading program model"
  | .modelSkipped .. => "unreadable program model, skipping"
  | .calleeDropped .. => "callee not in program model, edge dropped"
  | .scanStarted .. => "starting scan"
  | .bodyMissing .. => "no analyzable body, skipping"
  | .ruleMatched .. => "rule matched call site"
  | .parameterResolved .. => "resolved parameter through callers"
  | .cycleMet .. => "cycle on resolution path"
  | .depthReached .. => "resolution depth bound reached"
  | .scanCompleted .. => "scan complete"

/-- A line number that may be missing, as fields show it. -/
def lineText : Option Nat → String
  | some n => "Some(" ++ toString n ++ ")"
  | none => "None"

/-- The fields of an event. -/
def fields : Event → List (String × String)
  | .rulesLoaded path count => [("path", path), ("rules", toString count)]
  | .modelLoading path => [("format", "JSON program model"), ("path", path)]
  | .modelSkipped file cause => [("file", file), ("error", cause.message)]
  | .calleeDropped d =>
    [("callee", d.callee), ("method", toString d.site.method),
      ("call_site", toString d.site.index)]
  | .scanStarted program methods edges parallel =>
    [("program", program), ("methods", toString methods), ("edges", toString edges),
      ("parallel", if parallel then "true" else "false")]
  | .bodyMissing method => [("method", method)]
  | .ruleMatched method rule line =>
    [("method", method), ("rule", rule), ("line", lineText line)]
  | .parameterResolved owner value depth =>
    [("owner", toString owner), ("value", value), ("depth", toString depth)]
  | .cycleMet method | .depthReached method => [("method", toString method)]
  | .scanCompleted findings => [("findings", toString findings)]

end Event

end CryptoAudit
