import CryptoAudit.Document
import CryptoAudit.Text.Numeral

/-!
# YAML values

A scalar keeps how it was written, since a plain scalar can stand for a number or for the lack of a
value. As a text, every scalar stands for its characters. A value may be a reference to one that
stands elsewhere in the document, even around the reference, so values are read together with those
that anchors mark.
-/

namespace CryptoAudit

/-- How a scalar is written. -/
inductive Yaml.Style where
  | plain
  /-- In quotation marks, or in a block whose lines are folded. -/
  | quoted
  /-- In a block with its line breaks. -/
  | literal
deriving DecidableEq, Inhabited

/-- A YAML value. -/
inductive Yaml where
  | scalar (style : Yaml.Style) (tag : Option String) (s : String)
  | list (items : List Yaml)
  | mapping (members : List (Yaml × Yaml))
  /-- A value with an anchor. -/
  | anchored (number : Nat) (v : Yaml)
  /-- The value with an anchor of this number. -/
  | reference (number : Nat)
deriving Inhabited

namespace Yaml

/-- The value of a document or of a place where nothing is written. -/
def nothing : Yaml := .scalar .plain none ""

mutual

/-- The values with anchors, by the number of the anchor, in the order in which they begin. -/
def anchors : Yaml → List (Nat × Yaml)
  | .scalar .. | .reference _ => []
  | .list vs => anchorsOfItems vs
  | .mapping ms => anchorsOfMembers ms
  | .anchored number v => (number, v) :: v.anchors

/-- The values with anchors in a list. -/
def anchorsOfItems : List Yaml → List (Nat × Yaml)
  | [] => []
  | v :: vs => v.anchors ++ anchorsOfItems vs

/-- The values with anchors in the members of a mapping. -/
def anchorsOfMembers : List (Yaml × Yaml) → List (Nat × Yaml)
  | [] => []
  | m :: ms => anchorsOfMember m ++ anchorsOfMembers ms

/-- The values with anchors in a member of a mapping. -/
def anchorsOfMember : Yaml × Yaml → List (Nat × Yaml)
  | (k, v) => k.anchors ++ v.anchors

end

/-- A value in a document. -/
structure Node where
  value : Yaml
  /-- The values with anchors in the document, the last one first. -/
  anchors : List (Nat × Yaml)

namespace Node

/-- The document with this value. -/
def ofYaml (v : Yaml) : Node := ⟨v, v.anchors.reverse⟩

/-- Another value in the same document. -/
def part (n : Node) (v : Yaml) : Node := ⟨v, n.anchors⟩

/-- The value without anchors around it and references in its place. -/
def content (n : Node) : Yaml :=
  match n.value with
  | .anchored _ v => v
  | .reference number => (n.anchors.lookup number).getD nothing
  | v => v

/-- The characters of a scalar. -/
def text? (n : Node) : Option String :=
  match n.content with
  | .scalar _ _ s => some s
  | _ => none

end Node

/-- A tag of the language itself. -/
def coreTag (name : String) : String := "tag:yaml.org,2002:" ++ name

/-- The characters of a scalar that may stand for a value with this tag. -/
def untyped? (tag : String) (v : Yaml) : Option String :=
  match v with
  | .scalar .plain _ s => some s
  | .scalar .literal (some t) s => if t = tag then some s else none
  | _ => none

/-- The number that unsigned digits write, in the base that their first characters tell. Decimal
numbers other than zero do not begin with a zero. -/
def magnitude? : List Char → Option Nat
  | '0' :: 'x' :: digits => Text.number? 16 digits
  | '0' :: 'o' :: digits => Text.number? 8 digits
  | '0' :: 'b' :: digits => Text.number? 2 digits
  | ['0'] => some 0
  | '0' :: _ => none
  | digits => Text.number? 10 digits

/-- The integer that a text writes. -/
def integer? : List Char → Option Int
  | '+' :: rest => (magnitude? rest).map fun n => (n : Int)
  | '-' :: rest => (magnitude? rest).map fun n => -(n : Int)
  | rest => (magnitude? rest).map fun n => (n : Int)

/-- The truth value that a text writes. -/
def truth? : String → Option Bool
  | "true" | "True" | "TRUE" => some true
  | "false" | "False" | "FALSE" => some false
  | _ => none

/-- The text stands for the lack of a value. -/
def isNull (s : String) : Bool := s == "null" || s == "Null" || s == "NULL" || s == "~"

/-- Whether a value stands for the lack of a value. With the tag for that it must. -/
def isAbsent? : Yaml → Option Bool
  | .scalar .plain none s => some (s == "" || isNull s)
  | .scalar .plain (some tag) s =>
    if tag = coreTag "null" then (if isNull s then some true else none) else some false
  | _ => some false

/-- The name of an alternative without data: a scalar, or a tag of the document's own before the
lack of a value. -/
def name? : Yaml → Option String
  | .scalar style (some tag) s =>
    match tag.toList with
    | '!' :: name =>
      if style = .plain && (s == "" || isNull s) then
        some (if name.isEmpty then "!" else String.ofList name)
      else none
    | _ => some s
  | .scalar _ none s => some s
  | _ => none

/-- Records are mappings whose keys are scalars. Where nothing is written stands an empty list or
an empty record. -/
instance : Document Node where
  text? := Node.text?
  int? n := (untyped? (coreTag "int") n.content).bind fun s => integer? s.toList
  bool? n := (untyped? (coreTag "bool") n.content).bind truth?
  given? n := (isAbsent? n.content).map fun absent => if absent then none else some n
  items? n :=
    match n.content with
    | .list vs => some (vs.map n.part)
    | .scalar .plain _ "" => some []
    | _ => none
  members? n :=
    match n.content with
    | .mapping ms => ms.mapM fun (k, v) => (n.part k).text?.map (·, n.part v)
    | .scalar .plain _ "" => some []
    | _ => none
  positions? _ _ := none
  name? n := name? n.content

end Yaml

end CryptoAudit
