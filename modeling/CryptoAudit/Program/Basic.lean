import CryptoAudit.Program.CallSite

/-!
# Programs

A program is what the analysis reads: classes in order, methods with their call sites, and the call
graph. Programs may come from outside, so nothing here assumes that the parts fit together: a class
may list a method that does not exist, and an edge may name a missing call site.
-/

namespace CryptoAudit

/-- A class and its methods in order of declaration. -/
structure ClassDef where
  name : String
  sourceFile : Option String
  methods : List MethodId
deriving DecidableEq, Inhabited

/-- A method. -/
structure Method where
  id : MethodId
  /-- The name with the class in front. -/
  qualifiedName : String
  className : String
  name : String
  signature : String
  parameters : List String
  isConcrete : Bool
  /-- The call sites in order, if the body is known. -/
  body : Option (List CallSite)
deriving DecidableEq, Inhabited

/-- The call sites of a method that can be analysed: it is concrete and its body is known. -/
def Method.analyzableBody (m : Method) : Option (List CallSite) :=
  if m.isConcrete then m.body else none

/-- A program. -/
structure Program where
  name : String
  classes : List ClassDef
  methods : List Method
  callGraph : CallGraph
deriving DecidableEq, Inhabited

namespace Program

/-- A program without classes. -/
def empty (name : String) : Program := ⟨name, [], [], .empty⟩

/-- The method of this name, if it exists. -/
def method? (p : Program) (m : MethodId) : Option Method := p.methods[m]?

/-- The call site of this name, if it exists. -/
def callSite? (p : Program) (s : SiteId) : Option CallSite := do
  let m ← p.method? s.method
  let body ← m.body
  body[s.index]?

/-- The edges that call a method, in order. -/
def edgesInto (p : Program) (m : MethodId) : List CallEdge := p.callGraph.edgesInto m

/-- The existing methods in the order of the classes, then of declaration. -/
def methodsInOrder (p : Program) : List Method :=
  (p.classes.flatMap (·.methods)).filterMap p.method?

end Program

end CryptoAudit
