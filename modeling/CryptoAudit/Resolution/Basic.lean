import CryptoAudit.Resolution.Search

/-!
# Resolving arguments

`resolve` says what an argument of a call site holds: a literal is known directly, a parameter is
searched for in the callers of the method, and anything else is not resolved.
-/

namespace CryptoAudit

/-- How a value is known. -/
inductive Provenance where
  | directConstant
  | tracedRecursively
  | unresolved
deriving DecidableEq, Inhabited

/-- What is known of an argument. -/
structure ResolvedValue where
  value : String
  provenance : Provenance
  /-- The names of the methods that the value passed through, from the one that holds the literal
  to the one that owns the argument. -/
  trace : List String
deriving DecidableEq, Inhabited

namespace ResolvedValue

/-- A literal at the call itself. -/
def direct (value : String) : ResolvedValue := ⟨value, .directConstant, []⟩

/-- A literal that reaches the call through parameters. -/
def traced (value : String) (trace : List String) : ResolvedValue :=
  ⟨value, .tracedRecursively, trace⟩

/-- Nothing is known. -/
def unresolved : ResolvedValue := ⟨"", .unresolved, []⟩

/-- Something is known. -/
def isResolved (v : ResolvedValue) : Bool := v.provenance != .unresolved

end ResolvedValue

namespace Resolution

/-- The depth bound that is used where none is asked for. -/
def defaultDepth : Nat := 32

/-- The names of the methods of a trace, leaving out those that do not exist. -/
def qualifiedNames (p : Program) (ms : List MethodId) : List String :=
  ms.filterMap fun m => (p.method? m).map (·.qualifiedName)

/-- What the callers of a method pass for one of its parameters. -/
def traceParameter (p : Program) (bound : DepthBound) (owner : MethodId) (parameter : Nat) :
    Option ResolvedValue :=
  ((State.start owner parameter).run p bound (State.sound_start owner parameter)).map fun hit =>
    .traced hit.value (qualifiedNames p hit.trace)

/-- What an argument in the body of `owner` holds. -/
def resolve (p : Program) (bound : DepthBound) (owner : MethodId) : Argument → ResolvedValue
  | .literal s => .direct s
  | .parameter i => (traceParameter p bound owner i).getD .unresolved
  | .unsupported => .unresolved

end Resolution

end CryptoAudit
