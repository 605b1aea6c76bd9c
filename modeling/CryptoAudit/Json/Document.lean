import CryptoAudit.Document
import CryptoAudit.Json.Value

/-!
# Typed data in JSON

Records may be written as objects or as lists. An alternative with data is an object with one
member, named for the alternative; one without data may also be its bare name.
-/

namespace CryptoAudit.Json

/-- The name and the data of an alternative. A bare name stands for an alternative whose data is
null. -/
def tagged? : Json → Option (String × Json)
  | .text name => some (name, .null)
  | .object [m] => some m
  | _ => none

instance : Document Json where
  text? | .text s => some s | _ => none
  int? | .int n => some n | _ => none
  bool? | .bool b => some b | _ => none
  given? | .null => some none | v => some (some v)
  items? | .list vs => some vs | _ => none
  members? | .object ms => some ms | _ => none
  positions? | _, .list vs => some vs | _, _ => none
  name? v := match tagged? v with | some (name, .null) => some name | _ => none

/-- An alternative with data. -/
def tag (name : String) (data : Json) : Json := .object [(name, data)]

end CryptoAudit.Json
