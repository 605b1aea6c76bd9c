import CryptoAudit.Json.Document
import CryptoAudit.Program.Basic
import CryptoAudit.Program.Body

/-!
# Programs and bodies as JSON

Each part of a program or body has a writer `toJson` and a reader `ofJson?`. Facts of a body that
are not known (`successors`, `result`, `line`, `callees`) are left out when they are written; the
parts of a program are written in full, with null for what is not known.
-/

namespace CryptoAudit

open Document

/-! ## Call sites and programs -/

namespace Argument

/-- An argument as JSON. -/
def toJson : Argument → Json
  | .literal s => .tag "literal" (.text s)
  | .parameter i => .tag "parameter_ref" (.nat i)
  | .unsupported => .text "unsupported"

/-- Reads an argument. -/
def ofJson? (v : Json) : Option Argument :=
  match v.tagged? with
  | some ("literal", data) => (text? data).map .literal
  | some ("parameter_ref", data) => (index? data).map .parameter
  | some ("unsupported", .null) => some .unsupported
  | _ => none

end Argument

namespace SourceLocation

/-- A location as JSON. -/
def toJson (l : SourceLocation) : Json :=
  .object [("file", .ofText? l.file), ("line", .nat l.line)]

/-- Reads a location. -/
def ofJson? (v : Json) : Option SourceLocation :=
  match record? [.fixed "file", .fixed "line"] v with
  | some [file, line] => do
    return ⟨← optional text? file, ← required line? line⟩
  | _ => none

end SourceLocation

namespace SiteId

/-- The place of a call site as JSON. -/
def toJson (s : SiteId) : Json :=
  .object [("method", .nat s.method), ("index", .nat s.index)]

/-- Reads the place of a call site. -/
def ofJson? (v : Json) : Option SiteId :=
  match record? [.fixed "method", .fixed "index"] v with
  | some [method, index] => do
    return ⟨← required index? method, ← required index? index⟩
  | _ => none

end SiteId

namespace CallSite

/-- A call site as JSON. -/
def toJson (s : CallSite) : Json :=
  .object [
    ("caller", .nat s.caller),
    ("index", .nat s.index),
    ("declaring_type", .text s.declaringType),
    ("method_name", .text s.methodName),
    ("arguments", .list (s.arguments.map Argument.toJson)),
    ("location", match s.location with | some l => l.toJson | none => .null)]

/-- Reads a call site. -/
def ofJson? (v : Json) : Option CallSite :=
  match record? [.fixed "caller", .fixed "index", .fixed "declaring_type", .fixed "method_name",
      .fixed "arguments", .fixed "location"] v with
  | some [caller, index, declaringType, methodName, arguments, location] => do
    return {
      caller := ← required index? caller
      index := ← required index? index
      declaringType := ← required text? declaringType
      methodName := ← required text? methodName
      arguments := ← required (list? Argument.ofJson?) arguments
      location := ← optional SourceLocation.ofJson? location }
  | _ => none

end CallSite

namespace CallEdge

/-- An edge as JSON. -/
def toJson (e : CallEdge) : Json :=
  .object [("call_site", e.site.toJson), ("callee", .nat e.callee)]

/-- Reads an edge. -/
def ofJson? (v : Json) : Option CallEdge :=
  match record? [.fixed "call_site", .fixed "callee"] v with
  | some [site, callee] => do
    return ⟨← required SiteId.ofJson? site, ← required index? callee⟩
  | _ => none

end CallEdge

namespace CallGraph

/-- A call graph as JSON. -/
def toJson (g : CallGraph) : Json :=
  .object [
    ("incoming", .list (g.incoming.map fun es => .list (es.map CallEdge.toJson))),
    ("edge_count", .nat g.edgeCount)]

/-- Reads a call graph. -/
def ofJson? (v : Json) : Option CallGraph :=
  match record? [.fixed "incoming", .fixed "edge_count"] v with
  | some [incoming, edgeCount] => do
    return ⟨← required (list? (list? CallEdge.ofJson?)) incoming, ← required index? edgeCount⟩
  | _ => none

end CallGraph

namespace ClassDef

/-- A class as JSON. -/
def toJson (c : ClassDef) : Json :=
  .object [
    ("name", .text c.name),
    ("source_file", .ofText? c.sourceFile),
    ("methods", .list (c.methods.map Json.nat))]

/-- Reads a class. -/
def ofJson? (v : Json) : Option ClassDef :=
  match record? [.fixed "name", .fixed "source_file", .fixed "methods"] v with
  | some [name, sourceFile, methods] => do
    return ⟨← required text? name, ← optional text? sourceFile, ← required (list? index?) methods⟩
  | _ => none

end ClassDef

namespace Method

/-- A method as JSON. -/
def toJson (m : Method) : Json :=
  .object [
    ("id", .nat m.id),
    ("qualified_name", .text m.qualifiedName),
    ("class_name", .text m.className),
    ("name", .text m.name),
    ("signature", .text m.signature),
    ("parameters", .texts m.parameters),
    ("is_concrete", .bool m.isConcrete),
    ("body", match m.body with | some sites => .list (sites.map CallSite.toJson) | none => .null)]

/-- Reads a method. -/
def ofJson? (v : Json) : Option Method :=
  match record? [.fixed "id", .fixed "qualified_name", .fixed "class_name", .fixed "name",
      .fixed "signature", .fixed "parameters", .fixed "is_concrete", .fixed "body"] v with
  | some [id, qualifiedName, className, name, signature, parameters, isConcrete, body] => do
    return {
      id := ← required index? id
      qualifiedName := ← required text? qualifiedName
      className := ← required text? className
      name := ← required text? name
      signature := ← required text? signature
      parameters := ← required (list? text?) parameters
      isConcrete := ← required bool? isConcrete
      body := ← optional (list? CallSite.ofJson?) body }
  | _ => none

end Method

namespace Program

/-- A program as JSON. -/
def toJson (p : Program) : Json :=
  .object [
    ("name", .text p.name),
    ("classes", .list (p.classes.map ClassDef.toJson)),
    ("methods", .list (p.methods.map Method.toJson)),
    ("call_graph", p.callGraph.toJson)]

/-- Reads a program. -/
def ofJson? (v : Json) : Option Program :=
  match record? [.fixed "name", .fixed "classes", .fixed "methods", .fixed "call_graph"] v with
  | some [name, classes, methods, callGraph] => do
    return {
      name := ← required text? name
      classes := ← required (list? ClassDef.ofJson?) classes
      methods := ← required (list? Method.ofJson?) methods
      callGraph := ← required CallGraph.ofJson? callGraph }
  | _ => none

end Program

/-! ## Bodies -/

namespace Operand

/-- An operand as JSON. -/
def toJson : Operand → Json
  | .literal s => .tag "literal" (.text s)
  | .parameter i => .tag "parameter" (.nat i)
  | .local x => .tag "local" (.text x)
  | .other => .text "other"

/-- Reads an operand. -/
def ofJson? (v : Json) : Option Operand :=
  match v.tagged? with
  | some ("literal", data) => (text? data).map .literal
  | some ("parameter", data) => (index? data).map .parameter
  | some ("local", data) => (text? data).map .local
  | some ("other", .null) => some .other
  | _ => none

end Operand

namespace Invocation

/-- A call as JSON. -/
def toJson (inv : Invocation) : Json :=
  .object (
    [("declaring_type", .text inv.declaringType),
      ("method", .text inv.method),
      ("args", .list (inv.args.map Operand.toJson))] ++
    (inv.result.map fun x => ("result", .text x)).toList ++
    (inv.line.map fun n => ("line", .nat n)).toList ++
    (inv.callees.map fun names => ("callees", .texts names)).toList)

/-- Reads a call. -/
def ofJson? (v : Json) : Option Invocation :=
  match record? [.fixed "declaring_type", .fixed "method", .loose "args", .loose "result",
      .loose "line", .loose "callees"] v with
  | some [declaringType, method, args, result, line, callees] => do
    return {
      declaringType := ← required text? declaringType
      method := ← required text? method
      args := ← orElse [] (list? Operand.ofJson?) args
      result := ← optional text? result
      line := ← optional line? line
      callees := ← optional (list? text?) callees }
  | _ => none

end Invocation

namespace Statement

/-- A statement as JSON. -/
def toJson : Statement → Json
  | .assign target value =>
    .tag "assign" (.object [("target", .text target), ("value", value.toJson)])
  | .invoke inv => .tag "invoke" inv.toJson
  | .nop => .text "nop"

/-- Reads a statement. -/
def ofJson? (v : Json) : Option Statement :=
  match v.tagged? with
  | some ("assign", data) =>
    match record? [.fixed "target", .fixed "value"] data with
    | some [target, value] => do
      return .assign (← required text? target) (← required Operand.ofJson? value)
    | _ => none
  | some ("invoke", data) => (Invocation.ofJson? data).map .invoke
  | some ("nop", .null) => some .nop
  | _ => none

end Statement

namespace Body

/-- A body as JSON. -/
def toJson (b : Body) : Json :=
  .object (
    ("statements", .list (b.statements.map Statement.toJson)) ::
    (b.successors.map fun lists =>
      ("successors", Json.list (lists.map fun l => .list (l.map Json.nat)))).toList)

/-- Reads a body. -/
def ofJson? (v : Json) : Option Body :=
  match record? [.fixed "statements", .loose "successors"] v with
  | some [statements, successors] => do
    return {
      statements := ← required (list? Statement.ofJson?) statements
      successors := ← optional (list? (list? index?)) successors }
  | _ => none

end Body

end CryptoAudit
