import CryptoAudit.Json.Value

/-!
# Writing JSON

`Json.compact` writes a value without blanks; `Json.pretty` writes one item or member a line, two
spaces deeper for each enclosing list or object. Both write the words `Json.tokens` in order.

Inside strings only the quote, the backslash and the control characters below U+0020 are escaped;
five of these have a short escape, the others four lower-case hexadecimal digits.
-/

namespace CryptoAudit.Json

/-- The lower-case hexadecimal digit of a number below sixteen. -/
def hexDigit (n : Nat) : Char :=
  Char.ofNat (if n < 10 then 48 + n else 87 + n)

/-- A character as it is written inside a string. -/
def escape (c : Char) : List Char :=
  if c == '"' then ['\\', '"']
  else if c == '\\' then ['\\', '\\']
  else if c == '\x08' then ['\\', 'b']
  else if c == '\x0c' then ['\\', 'f']
  else if c == '\n' then ['\\', 'n']
  else if c == '\r' then ['\\', 'r']
  else if c == '\t' then ['\\', 't']
  else if c.toNat < 0x20 then
    ['\\', 'u', '0', '0', hexDigit (c.toNat / 16), hexDigit (c.toNat % 16)]
  else [c]

/-- A text between quotes. -/
def quote (s : String) : List Char :=
  '"' :: s.toList.flatMap escape ++ ['"']

/-- An integer in decimal digits. -/
def intDigits : Int → List Char
  | .ofNat n => Nat.toDigits 10 n
  | .negSucc n => '-' :: Nat.toDigits 10 (n + 1)

/-- A value that is neither list nor object. A value that stands for no text is written as an
escaped surrogate. -/
def scalarText : Json → List Char
  | .null => ['n', 'u', 'l', 'l']
  | .bool true => ['t', 'r', 'u', 'e']
  | .bool false => ['f', 'a', 'l', 's', 'e']
  | .int n => intDigits n
  | .real digits => digits.toList
  | .text s => quote s
  | .unpaired => ['"', '\\', 'u', 'd', '8', '0', '0', '"']
  | .list _ | .object _ => []

mutual

/-- A value without blanks. -/
def compact : Json → List Char
  | .list [] => ['[', ']']
  | .list (x :: xs) => '[' :: x.compact ++ compactItems xs
  | .object [] => ['\x7b', '\x7d']
  | .object (m :: ms) => '\x7b' :: compactMember m ++ compactMembers ms
  | v => scalarText v

/-- From the end of an item to the end of its list. -/
def compactItems : List Json → List Char
  | [] => [']']
  | x :: xs => ',' :: x.compact ++ compactItems xs

/-- From the end of a member to the end of its object. -/
def compactMembers : List (String × Json) → List Char
  | [] => ['\x7d']
  | m :: ms => ',' :: compactMember m ++ compactMembers ms

/-- One member. -/
def compactMember : String × Json → List Char
  | (k, v) => quote k ++ ':' :: v.compact

end

/-- A new line, indented for `depth` enclosing lists and objects. -/
def newLine (depth : Nat) : List Char :=
  '\n' :: List.replicate (2 * depth) ' '

mutual

/-- A value with one item or member a line, inside `depth` lists and objects. -/
def pretty (depth : Nat) : Json → List Char
  | .list [] => ['[', ']']
  | .list (x :: xs) => '[' :: newLine (depth + 1) ++ pretty (depth + 1) x ++ prettyItems depth xs
  | .object [] => ['\x7b', '\x7d']
  | .object (m :: ms) =>
    '\x7b' :: newLine (depth + 1) ++ prettyMember (depth + 1) m ++ prettyMembers depth ms
  | v => scalarText v

/-- From the end of an item to the end of its list, which stands at `depth`. -/
def prettyItems (depth : Nat) : List Json → List Char
  | [] => newLine depth ++ [']']
  | x :: xs => ',' :: newLine (depth + 1) ++ pretty (depth + 1) x ++ prettyItems depth xs

/-- From the end of a member to the end of its object, which stands at `depth`. -/
def prettyMembers (depth : Nat) : List (String × Json) → List Char
  | [] => newLine depth ++ ['\x7d']
  | m :: ms => ',' :: newLine (depth + 1) ++ prettyMember (depth + 1) m ++ prettyMembers depth ms

/-- One member inside `depth` lists and objects. -/
def prettyMember (depth : Nat) : String × Json → List Char
  | (k, v) => quote k ++ ':' :: ' ' :: pretty depth v

end

/-- A value as text without blanks. -/
def toCompact (v : Json) : String := String.ofList v.compact

/-- A value as text with one item or member a line. -/
def toPretty (v : Json) : String := String.ofList (v.pretty 0)

end CryptoAudit.Json
