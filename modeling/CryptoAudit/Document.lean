/-!
# Typed data in documents

Rules, settings and models are written in more than one document language. `Document δ` says what
has to be known about a language `δ` to read typed data from its values, and the readers here are
built from that alone.

A record may be written by name or, where the language allows it, by position. By name, each field
may occur once under its name or one of its aliases, and names of no field are skipped. By
position, values stand in the order of the fields, and only fields that may be omitted can be
missing at the end; whether there may be more values than fields depends on the language. `record?`
gives the value of each field, `none` for a missing one; what a missing field means is decided by
`required`, `optional` and `orElse`.
-/

namespace CryptoAudit

/-- A document language, as far as typed data is read from its values. -/
class Document (δ : Type) where
  /-- The text of a value that may stand for a text. -/
  text? : δ → Option String
  /-- The number of a value that stands for an integer. -/
  int? : δ → Option Int
  bool? : δ → Option Bool
  /-- The value if it does not stand for the lack of a value. -/
  given? : δ → Option (Option δ)
  items? : δ → Option (List δ)
  /-- The members of a record written by name. -/
  members? : δ → Option (List (String × δ))
  /-- The values of a record of so many fields that is written by position. -/
  positions? : Nat → δ → Option (List δ)
  /-- The name of an alternative without data. -/
  name? : δ → Option String

namespace Document

variable {δ : Type} [Document δ] {α : Type}

/-- A field of a record. -/
structure Field where
  name : String
  aliases : List String
  /-- The field may be missing at the end of a record written by position. -/
  omissible : Bool

/-- A field with one name that must stand in a record written by position. -/
def Field.fixed (name : String) : Field := ⟨name, [], false⟩

/-- A field with one name that may be missing in both forms of a record. -/
def Field.loose (name : String) : Field := ⟨name, [], true⟩

/-- The field goes by this name. -/
def Field.called (f : Field) (name : String) : Bool :=
  name == f.name || f.aliases.contains name

/-- The value of the one member that goes by the field's name; no result if there are two. -/
def Field.value? (f : Field) (members : List (String × δ)) : Option (Option δ) :=
  match members.filter (f.called ·.1) with
  | [] => some none
  | [(_, v)] => some (some v)
  | _ => none

/-- The fields' values, by position. -/
def byPosition? : List Field → List δ → Option (List (Option δ))
  | [], [] => some []
  | [], _ :: _ => none
  | _ :: fs, v :: vs => (byPosition? fs vs).map (some v :: ·)
  | f :: fs, [] => if f.omissible then (byPosition? fs []).map (none :: ·) else none

/-- The fields' values, by name. -/
def byName? (fields : List Field) (members : List (String × δ)) : Option (List (Option δ)) :=
  fields.mapM (·.value? members)

/-- The values of a record's fields, in the order of the fields. -/
def record? (fields : List Field) (v : δ) : Option (List (Option δ)) :=
  match members? v with
  | some members => byName? fields members
  | none => (positions? fields.length v).bind (byPosition? fields)

/-- The value of a field that must be there. -/
def required (read : δ → Option α) (field : Option δ) : Option α :=
  field.bind read

/-- The value of a field that may be missing or stand for the lack of a value. -/
def optional (read : δ → Option α) : Option δ → Option (Option α)
  | none => some none
  | some v => do
    match ← given? v with
    | none => return none
    | some w => return some (← read w)

/-- The value of a field that may be missing, but not stand for the lack of a value. -/
def orElse (default : α) (read : δ → Option α) : Option δ → Option α
  | none => some default
  | some v => read v

/-- A list of values. -/
def list? (read : δ → Option α) (v : δ) : Option (List α) :=
  (items? v).bind (·.mapM read)

/-- A natural number below `bound`. -/
def below? (bound : Nat) (v : δ) : Option Nat :=
  match int? v with
  | some (.ofNat n) => if n < bound then some n else none
  | _ => none

/-- An index or count: a natural number of 64 bits. -/
def index? (v : δ) : Option Nat := below? 0x10000000000000000 v

/-- A line number: a natural number of 32 bits. -/
def line? (v : δ) : Option Nat := below? 0x100000000 v

/-- An integer of 64 bits with sign. -/
def signed? (v : δ) : Option Int :=
  (int? v).bind fun n =>
    if -0x8000000000000000 ≤ n ∧ n < 0x8000000000000000 then some n else none

end Document

end CryptoAudit
