import CryptoAudit.Text.Numeral
import CryptoAudit.Yaml.Cursor

/-!
# Anchors, tags and directives of YAML

A value may be preceded by an anchor, by which it can be referred to, and by a tag. A tag is written
in full or as a handle and a suffix; directives at the start of a document say what handles stand
for. A reader takes characters and gives its result with the characters after it.
-/

namespace CryptoAudit.Yaml

/-- Characters of the names of anchors, handles and directives. -/
def isNameChar (c : Char) : Bool := c.isAlphanum || c == '_' || c == '-'

/-- Reads the name of an anchor after its mark. -/
def anchorName? (cs : List Char) : Option (String × List Char) :=
  let name := cs.takeWhile isNameChar
  let rest := cs.dropWhile isNameChar
  let isEnded := atBlank rest ||
    rest.head?.any fun c => ['?', ':', ',', ']', '\x7d', '%', '@', '\x60'].contains c
  if name.isEmpty || !isEnded then none else some (String.ofList name, rest)

/-! ## Tags -/

/-- Characters of tags. Some have a meaning of their own between brackets, where they may stand only
in a tag that is written in full. -/
def isTagChar (full : Bool) (c : Char) : Bool :=
  isNameChar c ||
    [';', '/', '?', ':', '@', '&', '=', '+', '$', '.', '!', '~', '*', '\'', '(', ')'].contains c ||
    (full && (c == ',' || c == '[' || c == ']'))

/-- The number of bytes of a character by its first byte, and the bits of the first byte that belong
to its code point. -/
def leadingByte? (b : Nat) : Option (Nat × Nat) :=
  if b < 0x80 then some (0, b)
  else if 0xc0 ≤ b ∧ b < 0xe0 then some (1, b - 0xc0)
  else if 0xe0 ≤ b ∧ b < 0xf0 then some (2, b - 0xe0)
  else if 0xf0 ≤ b ∧ b < 0xf8 then some (3, b - 0xf0)
  else none

/-- Reads a byte that is written with a percent sign. -/
def escapedByte? : List Char → Option (Nat × List Char)
  | '%' :: a :: b :: rest => (Text.number? 16 [a, b]).map (·, rest)
  | _ => none

/-- Reads `count` bytes that continue a character. -/
def continuation? : Nat → Nat → List Char → Option (Nat × List Char)
  | 0, code, cs => some (code, cs)
  | count + 1, code, cs => do
    let (b, rest) ← escapedByte? cs
    if 0x80 ≤ b ∧ b < 0xc0 then continuation? count (code * 64 + (b - 0x80)) rest else none

/-- Reads a character whose bytes are written with percent signs. -/
def escapedChar? (cs : List Char) : Option (Char × List Char) := do
  let (b, rest) ← escapedByte? cs
  let (count, bits) ← leadingByte? b
  let (code, rest) ← continuation? count bits rest
  return (Char.ofNat code, rest)

/-- Reads the characters of a tag. -/
def tagChars? (full : Bool) : Nat → List Char → Option (List Char × List Char)
  | 0, _ => none
  | fuel + 1, cs =>
    match cs with
    | [] => some ([], [])
    | c :: rest =>
      if c == '%' then do
        let (d, rest) ← escapedChar? cs
        let (ds, rest) ← tagChars? full fuel rest
        return (d :: ds, rest)
      else if isTagChar full c then (tagChars? full fuel rest).map fun (ds, rest) => (c :: ds, rest)
      else some ([], cs)

/-- Reads characters of a tag, at least one. -/
def tagText? (full : Bool) (cs : List Char) : Option (String × List Char) :=
  match tagChars? full (cs.length + 1) cs with
  | some (c :: text, rest) => some (String.ofList (c :: text), rest)
  | _ => none

/-- What the handles stand for unless directives say something else. -/
def standardHandles : List (String × String) := [("!", "!"), ("!!", "tag:yaml.org,2002:")]

/-- Reads a tag, where handles stand for what is given. -/
def tag? (handles : List (String × String)) : List Char → Option (String × List Char)
  | '!' :: '<' :: rest => do
    match ← tagText? true rest with
    | (tag, '>' :: after) => return (tag, after)
    | _ => none
  | '!' :: rest => do
    let word := rest.takeWhile isNameChar
    match rest.dropWhile isNameChar with
    | '!' :: after =>
      let (suffix, after) ← tagText? false after
      return ((← handles.lookup (String.ofList ('!' :: word ++ ['!']))) ++ suffix, after)
    | _ =>
      let (suffix, after) ← tagChars? false (rest.length + 1) rest
      if suffix.isEmpty then return ("!", after)
      else return ((← handles.lookup "!") ++ String.ofList suffix, after)
  | _ => none

/-! ## Directives -/

/-- A directive. -/
inductive Directive where
  | version
  /-- What a handle stands for. -/
  | handle (name text : String)

/-- Reads a number of at most nine digits. -/
def versionNumber? (cs : List Char) : Option (Nat × List Char) :=
  let digits := cs.takeWhile Char.isDigit
  if digits.isEmpty || 9 < digits.length then none
  else some (Text.ofDigits digits, cs.dropWhile Char.isDigit)

/-- Reads a version of the language, which must be 1.1 or 1.2. -/
def version? (cs : List Char) : Option (Directive × List Char) := do
  match ← versionNumber? cs with
  | (major, '.' :: rest) =>
    let (minor, rest) ← versionNumber? rest
    if major = 1 ∧ (minor = 1 ∨ minor = 2) then return (.version, rest) else none
  | _ => none

/-- Reads a handle and what it stands for. -/
def handle? : List Char → Option (Directive × List Char)
  | '!' :: rest => do
    let word := rest.takeWhile isNameChar
    let (name, rest) ← match rest.dropWhile isNameChar with
      | '!' :: after => some ('!' :: word ++ ['!'], after)
      | after => if word.isEmpty then some (['!'], after) else none
    if !rest.head?.any isBlank then none
    else
      let (text, rest) ← tagText? true (rest.dropWhile isBlank)
      if atBlank rest then return (.handle (String.ofList name) text, rest) else none
  | _ => none

/-- Reads a directive after its mark, up to the end of its line. -/
def directive? (cs : List Char) : Option (Directive × List Char) := do
  let name := cs.takeWhile isNameChar
  let rest := cs.dropWhile isNameChar
  if !atBlank rest then none
  else
    let (d, rest) ← match String.ofList name with
      | "YAML" => version? (rest.dropWhile isBlank)
      | "TAG" => handle? (rest.dropWhile isBlank)
      | _ => none
    let rest := match rest.dropWhile isBlank with
      | '#' :: comment => comment.dropWhile (!isBreak ·)
      | rest => rest
    if rest.isEmpty || rest.head?.any isBreak then return (d, rest) else none

end CryptoAudit.Yaml
