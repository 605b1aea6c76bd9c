/-!
# JSON values

A JSON document as data. Members of an object keep the order in which they are written, and a name
may occur twice, because the reader of a record has to see a repeated name to refuse it.

An integer is a number written without fraction and exponent, and not as minus zero. All other
numbers are kept as written: nothing in this project computes with them.
-/

namespace CryptoAudit

/-- A JSON value. -/
inductive Json where
  | null
  | bool (b : Bool)
  | int (n : Int)
  /-- A number with a fraction or an exponent, or minus zero, as it is written. -/
  | real (digits : String)
  | text (s : String)
  /-- A string, or an object with a member name, that holds an unpaired surrogate escape: it is
  well formed, so it may be skipped, but it stands for no text. -/
  | unpaired
  | list (items : List Json)
  | object (members : List (String × Json))
deriving Inhabited

namespace Json

/-- A text or nothing. -/
def ofText? : Option String → Json
  | none => .null
  | some s => .text s

/-- A natural number. -/
def nat (n : Nat) : Json := .int n

/-- A natural number or nothing. -/
def ofNat? : Option Nat → Json
  | none => .null
  | some n => .nat n

/-- A list of texts. -/
def texts (ss : List String) : Json := .list (ss.map .text)

end Json

/-- The words of a JSON text: punctuation, and scalars with their value. -/
inductive Json.Token where
  | beginList
  | endList
  | beginObject
  | endObject
  | colon
  | comma
  | scalar (v : Json)

mutual

/-- The words that a value is written with. -/
def Json.tokens : Json → List Json.Token
  | .list [] => [.beginList, .endList]
  | .list (x :: xs) => .beginList :: x.tokens ++ Json.itemTokens xs
  | .object [] => [.beginObject, .endObject]
  | .object (m :: ms) => .beginObject :: Json.memberToken m ++ Json.memberTokens ms
  | v => [.scalar v]

/-- The words from the end of an item to the end of its list. -/
def Json.itemTokens : List Json → List Json.Token
  | [] => [.endList]
  | x :: xs => .comma :: x.tokens ++ Json.itemTokens xs

/-- The words from the end of a member to the end of its object. -/
def Json.memberTokens : List (String × Json) → List Json.Token
  | [] => [.endObject]
  | m :: ms => .comma :: Json.memberToken m ++ Json.memberTokens ms

/-- The words of one member. -/
def Json.memberToken : String × Json → List Json.Token
  | (k, v) => .scalar (.text k) :: .colon :: v.tokens

end

end CryptoAudit
