import CryptoAudit.Program.Basic

/-!
# Building programs

A program grows by steps: a class is declared, a method is added to a class, a call site is appended
to a method, an edge is recorded. A class is known by its name, so declaring it again only sets its
source file. Call sites of methods that do not exist are refused; edges are not checked.

`Step` has the steps as data, so that statements can speak of all ways to build a program;
`Step.run?` runs one and `Program.build` runs a list of them.
-/

namespace CryptoAudit.Program

/-- The program with a class of this name, which is the last one if it is new. -/
def ensureClass (p : Program) (name : String) : Program :=
  if p.classes.any (·.name == name) then p
  else { p with classes := p.classes ++ [⟨name, none, []⟩] }

/-- Changes the first class of this name. -/
def modifyClass (p : Program) (name : String) (f : ClassDef → ClassDef) : Program :=
  { p with classes := p.classes.modify (p.classes.findIdx (·.name == name)) f }

/-- Declares a class. A source file replaces the one that is known. -/
def declareClass (p : Program) (name : String) (sourceFile : Option String) : Program :=
  match sourceFile with
  | none => p.ensureClass name
  | some file => (p.ensureClass name).modifyClass name fun c => { c with sourceFile := some file }

/-- A method as it is declared. -/
structure Declaration where
  className : String
  name : String
  signature : Option String
  parameters : List String
  isConcrete : Bool
  /-- The body is known; it has no call sites yet. -/
  hasBody : Bool
deriving DecidableEq, Inhabited

/-- The declared signature, or else the name with the parameters. -/
def Declaration.signatureText (d : Declaration) : String :=
  d.signature.getD (d.name ++ "(" ++ ", ".intercalate d.parameters ++ ")")

/-- The declared method, under a name. -/
def Declaration.toMethod (d : Declaration) (id : MethodId) : Method where
  id
  qualifiedName := d.className ++ "." ++ d.name
  className := d.className
  name := d.name
  signature := d.signatureText
  parameters := d.parameters
  isConcrete := d.isConcrete
  body := if d.hasBody then some [] else none

/-- The name that the next method gets. -/
def nextMethod (p : Program) : MethodId := p.methods.length

/-- Adds a method under the name `p.nextMethod` at the end of its class. -/
def addMethod (p : Program) (d : Declaration) : Program :=
  let q := (p.ensureClass d.className).modifyClass d.className fun c =>
    { c with methods := c.methods ++ [p.nextMethod] }
  { q with methods := q.methods ++ [d.toMethod p.nextMethod] }

/-- The source file of the first class of this name. -/
def sourceFileOf (p : Program) (className : String) : Option String :=
  (p.classes.find? (·.name == className)).bind (·.sourceFile)

/-- A call as it is added to a method. -/
structure Call where
  declaringType : String
  methodName : String
  arguments : List Argument
  line : Option Nat
deriving DecidableEq, Inhabited

/-- The name that the next call site of a method gets. -/
def nextSite (m : Method) (id : MethodId) : SiteId := ⟨id, (m.body.getD []).length⟩

/-- Appends a call site to a method, which then has a body. The site has a location if its line is
known. -/
def addCall? (p : Program) (caller : MethodId) (c : Call) : Option (Program × SiteId) :=
  (p.method? caller).map fun m =>
    let id := nextSite m caller
    let site : CallSite :=
      { caller
        index := id.index
        declaringType := c.declaringType
        methodName := c.methodName
        arguments := c.arguments
        location := c.line.map fun line => ⟨p.sourceFileOf m.className, line⟩ }
    ({ p with
        methods := p.methods.set caller { m with body := some (m.body.getD [] ++ [site]) } }, id)

/-- Records an edge. -/
def addEdge (p : Program) (site : SiteId) (callee : MethodId) : Program :=
  { p with callGraph := p.callGraph.addEdge site callee }

/-- Appends a call of a method of the program, and records its edge. -/
def addMethodCall? (p : Program) (caller callee : MethodId) (arguments : List Argument)
    (line : Option Nat) : Option (Program × SiteId) := do
  let m ← p.method? callee
  let (q, site) ← p.addCall? caller ⟨m.className, m.name, arguments, line⟩
  return (q.addEdge site callee, site)

/-- A step in building a program. -/
inductive Step where
  | declareClass (name : String) (sourceFile : Option String)
  | addMethod (d : Declaration)
  | addCall (caller : MethodId) (c : Call)
  | addMethodCall (caller callee : MethodId) (arguments : List Argument) (line : Option Nat)
  | addEdge (site : SiteId) (callee : MethodId)
deriving DecidableEq, Inhabited

/-- Runs a step; a call in or of a method that does not exist has no result. -/
def Step.run? (p : Program) : Step → Option Program
  | .declareClass name file => some (p.declareClass name file)
  | .addMethod d => some (p.addMethod d)
  | .addCall caller c => (p.addCall? caller c).map (·.1)
  | .addMethodCall caller callee arguments line =>
    (p.addMethodCall? caller callee arguments line).map (·.1)
  | .addEdge site callee => some (p.addEdge site callee)

/-- Runs a step; one that has no result changes nothing. -/
def Step.run (p : Program) (s : Step) : Program := (s.run? p).getD p

/-- The program that a list of steps builds, leaving out steps that have no result. -/
def build (name : String) (steps : List Step) : Program :=
  steps.foldl Step.run (.empty name)

end CryptoAudit.Program
