/-!
# Call sites and the call graph

A call site is one call in one method body, with what is known of its arguments. The call graph
stores for each method the edges that call it, in the order in which they were recorded: that
order decides which of several values is reported.
-/

namespace CryptoAudit

/-- A method is named by its position among the methods of its program. -/
abbrev MethodId := Nat

/-- Where an argument of a call comes from. -/
inductive Argument where
  | literal (s : String)
  /-- A parameter of the method that contains the call. -/
  | parameter (i : Nat)
  /-- Any other expression. -/
  | unsupported
deriving DecidableEq, Inhabited

/-- A place in a source file. -/
structure SourceLocation where
  file : Option String
  line : Nat
deriving DecidableEq, Inhabited

/-- A call site is named by its method and its position among the method's call sites. -/
structure SiteId where
  method : MethodId
  index : Nat
deriving DecidableEq, Inhabited

/-- One call in one method body. -/
structure CallSite where
  caller : MethodId
  index : Nat
  declaringType : String
  methodName : String
  arguments : List Argument
  location : Option SourceLocation
deriving DecidableEq, Inhabited

/-- The name of the called method with its declaring type. -/
def CallSite.target (site : CallSite) : String :=
  site.declaringType ++ "." ++ site.methodName

/-- The number of arguments. -/
def CallSite.arity (site : CallSite) : Nat := site.arguments.length

/-- An edge from a call site to a method that it may call. -/
structure CallEdge where
  site : SiteId
  callee : MethodId
deriving DecidableEq, Inhabited

/-- The method that contains the edge's call site. -/
def CallEdge.caller (e : CallEdge) : MethodId := e.site.method

/-- The edges of a program by the method under which they are stored. -/
structure CallGraph where
  incoming : List (List CallEdge)
  edgeCount : Nat
deriving DecidableEq, Inhabited

namespace CallGraph

/-- A graph without edges. -/
def empty : CallGraph := ⟨[], 0⟩

/-- The edges stored for a method, in order. -/
def edgesInto (g : CallGraph) (m : MethodId) : List CallEdge :=
  g.incoming[m]?.getD []

/-- The graph with one more edge, after those that its callee has. The lists reach up to the
highest callee of an edge. -/
def addEdge (g : CallGraph) (site : SiteId) (callee : MethodId) : CallGraph where
  incoming :=
    (g.incoming.rightpad (callee + 1) []).modify callee (· ++ [⟨site, callee⟩])
  edgeCount := g.edgeCount + 1

end CallGraph

end CryptoAudit
