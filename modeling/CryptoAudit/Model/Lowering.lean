import CryptoAudit.Dataflow.Propagation
import CryptoAudit.Model.Basic
import CryptoAudit.Program.Construction

/-!
# Lowering models to programs

First every class and method of every file is declared, so that a call can reach a method of any
file. Then the bodies are lowered in the order of the methods: each call becomes a call site whose
arguments are what constant propagation knows of them, with an edge to each method that it may
call. The first body whose successors are wrong stops the lowering.
-/

namespace CryptoAudit.Model

/-- A model file with the name by which messages call it. -/
structure Source where
  name : String
  file : ModelFile
deriving Inhabited

/-- A body that is to be lowered: its method, the source it comes from, and the body. -/
structure PendingBody where
  method : MethodId
  source : String
  body : Body
deriving Inhabited

/-- A program with the methods declared so far, and their bodies. -/
structure Declared where
  program : Program
  bodies : List PendingBody

/-- Declares a method. -/
def Declared.addMethod (d : Declared) (source className : String) (m : MethodModel) : Declared where
  program := d.program.addMethod
    ⟨className, m.name, m.signature, m.parameters, m.isConcrete, m.body.isSome⟩
  bodies := d.bodies ++ (m.body.map (⟨d.program.nextMethod, source, ·⟩)).toList

/-- Declares a class and its methods. -/
def Declared.addClass (source : String) (d : Declared) (c : ClassModel) : Declared :=
  c.methods.foldl (·.addMethod source c.name ·)
    { d with program := d.program.declareClass c.name c.sourceFile }

/-- Declares the classes and methods of all files. -/
def declare (name : String) (sources : List Source) : Declared :=
  sources.foldl (fun d s => s.file.classes.foldl (Declared.addClass s.name) d) ⟨.empty name, []⟩

/-- The methods that a name may mean for a call with `arity` arguments: those with as many
parameters, or else the only method of that name. -/
def pick (methods : List Method) (arity : Nat) (name : String) : List MethodId :=
  let candidates := methods.filter (·.qualifiedName == name)
  match candidates.filter (·.parameters.length == arity), candidates with
  | [], [m] => [m.id]
  | exact, _ => exact.map (·.id)

/-- The methods that a call may reach: those it names, or else those of its declared target. -/
def resolveCallees (methods : List Method) (inv : Invocation) : List MethodId :=
  match inv.callees with
  | some names => names.flatMap (pick methods inv.args.length)
  | none => pick methods inv.args.length inv.target

/-- The named callees that no method of the program has. -/
def unknownCallees (methods : List Method) (inv : Invocation) : List String :=
  (inv.callees.getD []).filter fun name => methods.all (·.qualifiedName != name)

/-- The call of an invocation, with the arguments as they are known before statement `i`. -/
def lowerCall (solution : List (Option Facts)) (i : Nat) (inv : Invocation) : Program.Call where
  declaringType := inv.declaringType
  methodName := inv.method
  arguments := inv.args.map (Dataflow.lowerOperand solution i)
  line := inv.line

/-- Appends the call site of an invocation and its edges. -/
def addInvocation (methods : List Method) (solution : List (Option Facts)) (caller : MethodId)
    (p : Program) (i : Nat) (inv : Invocation) : Program :=
  match p.addCall? caller (lowerCall solution i inv) with
  | some (q, site) => (resolveCallees methods inv).foldl (·.addEdge site ·) q
  | none => p

/-- Appends the call sites of a body. -/
def addBody (methods : List Method) (p : Program) (pending : PendingBody) : Program :=
  let solution := Dataflow.propagate pending.body
  pending.body.invocations.foldl
    (fun q call => addInvocation methods solution pending.method q call.1 call.2) p

/-- The successors of a body are wrong. -/
structure BadBody where
  source : String
  method : MethodId
  defect : Body.Defect
deriving DecidableEq

/-- What is wrong with a body, for a message. -/
def BadBody.message (e : BadBody) : String :=
  "method #" ++ toString e.method ++ ": " ++
    match e.defect with
    | .listCount lists statements =>
      toString lists ++ " successor lists for " ++ toString statements ++ " statements"
    | .outOfRange s => "successor index " ++ toString s ++ " out of range"

/-- Appends the call sites of a body whose successors are right. -/
def addBody? (methods : List Method) (p : Program) (pending : PendingBody) :
    Except BadBody Program :=
  match pending.body.defect? with
  | some defect => .error ⟨pending.source, pending.method, defect⟩
  | none => .ok (addBody methods p pending)

/-- The program of the files. -/
def lower (name : String) (sources : List Source) : Except BadBody Program :=
  let d := declare name sources
  d.bodies.foldlM (addBody? d.program.methods) d.program

/-- A callee that is named by a call and is no method of the program. -/
structure DroppedCallee where
  callee : String
  site : SiteId
deriving DecidableEq

/-- The callees that are dropped while the bodies are lowered, up to a body that is wrong. -/
def droppedCallees (sources : List Source) : List DroppedCallee :=
  let d := declare "" sources
  (d.bodies.takeWhile (·.body.defect?.isNone)).flatMap fun pending =>
    pending.body.invocations.zipIdx.flatMap fun ((_, inv), index) =>
      (unknownCallees d.program.methods inv).map (⟨·, ⟨pending.method, index⟩⟩)

end CryptoAudit.Model
