import CryptoAudit.Json.Reader
import CryptoAudit.Program.Encoding

/-!
# Program models

A model is the text form in which a program is delivered, one file for a part of the program. It
lists classes with their methods and bodies. `ModelFile.parse?` reads a file's text and
`ModelFile.toJson` writes a model.
-/

namespace CryptoAudit

open Document

/-- A method in a model. -/
structure MethodModel where
  name : String
  signature : Option String
  parameters : List String
  isConcrete : Bool
  /-- The body, if it could be extracted. -/
  body : Option Body
deriving DecidableEq, Inhabited

/-- A class in a model. -/
structure ClassModel where
  name : String
  sourceFile : Option String
  methods : List MethodModel
deriving DecidableEq, Inhabited

/-- A model file. -/
structure ModelFile where
  name : Option String
  classes : List ClassModel
deriving DecidableEq, Inhabited

namespace MethodModel

/-- A method of a model as JSON. -/
def toJson (m : MethodModel) : Json :=
  .object [
    ("name", .text m.name),
    ("signature", .ofText? m.signature),
    ("parameters", .texts m.parameters),
    ("concrete", .bool m.isConcrete),
    ("body", match m.body with | some b => b.toJson | none => .null)]

/-- Reads a method; it is concrete unless the model says otherwise. -/
def ofJson? (v : Json) : Option MethodModel :=
  match record? [.fixed "name", .loose "signature", .loose "parameters", .loose "concrete",
      .loose "body"] v with
  | some [name, signature, parameters, concrete, body] => do
    return {
      name := ← required text? name
      signature := ← optional text? signature
      parameters := ← orElse [] (list? text?) parameters
      isConcrete := ← orElse true bool? concrete
      body := ← optional Body.ofJson? body }
  | _ => none

end MethodModel

namespace ClassModel

/-- A class of a model as JSON. -/
def toJson (c : ClassModel) : Json :=
  .object [
    ("name", .text c.name),
    ("source_file", .ofText? c.sourceFile),
    ("methods", .list (c.methods.map MethodModel.toJson))]

/-- Reads a class. -/
def ofJson? (v : Json) : Option ClassModel :=
  match record? [.fixed "name", .loose "source_file", .loose "methods"] v with
  | some [name, sourceFile, methods] => do
    return {
      name := ← required text? name
      sourceFile := ← optional text? sourceFile
      methods := ← orElse [] (list? MethodModel.ofJson?) methods }
  | _ => none

end ClassModel

namespace ModelFile

/-- A model as JSON. -/
def toJson (f : ModelFile) : Json :=
  .object [
    ("name", .ofText? f.name),
    ("classes", .list (f.classes.map ClassModel.toJson))]

/-- Reads a model. -/
def ofJson? (v : Json) : Option ModelFile :=
  match record? [.loose "name", .loose "classes"] v with
  | some [name, classes] => do
    return {
      name := ← optional text? name
      classes := ← orElse [] (list? ClassModel.ofJson?) classes }
  | _ => none

/-- Reads the text of a model file. -/
def parse? (text : String) : Option ModelFile :=
  (Json.parse? text).bind ofJson?

end ModelFile

end CryptoAudit
