import CryptoAudit.Toml.Scalar

/-!
# Reading TOML

A document is read line by line into the table that it describes. Values may nest to a fixed depth,
which bounds the recursion; lists and lines are bounded by the number of characters.
-/

namespace CryptoAudit.Toml

/-- Keys have fewer parts than this, and values fewer levels. -/
def depthLimit : Nat := 80

/-- Skips a comment after its mark, up to the end of the line. -/
def comment? (cs : List Char) : Option (List Char) :=
  let rest := cs.dropWhile isPlain
  if rest.isEmpty || (lineBreak? rest).isSome then some rest else none

/-- Skips blanks, a comment and the line break. -/
def endLine? (cs : List Char) : Option (List Char) := do
  let rest ← match cs.dropWhile isSpace with
    | '#' :: after => comment? after
    | rest => some rest
  if rest.isEmpty then return [] else lineBreak? rest

/-- Skips blanks, comments and line breaks. -/
def skipLines? (inComment : Bool) : List Char → Option (List Char)
  | [] => some []
  | '\r' :: '\n' :: rest => skipLines? false rest
  | c :: rest =>
    if c == '\n' then skipLines? false rest
    else if inComment then (if isPlain c then skipLines? true rest else none)
    else if isSpace c then skipLines? false rest
    else if c == '#' then skipLines? true rest
    else some (c :: rest)

/-- Skips all blanks and comments. -/
def skip? (cs : List Char) : Option (List Char) := skipLines? false cs

/-! ## Keys -/

/-- Characters of keys without quotation marks. -/
def isKeyChar (c : Char) : Bool := c.isAlphanum || c == '-' || c == '_'

/-- Reads a part of a key. -/
def keyPart? : List Char → Option (String × List Char)
  | '"' :: rest => (basicText? rest).map fun (s, after) => (String.ofList s, after)
  | '\'' :: rest => (literalText? rest).map fun (s, after) => (String.ofList s, after)
  | cs =>
    let word := cs.takeWhile isKeyChar
    if word.isEmpty then none else some (String.ofList word, cs.dropWhile isKeyChar)

/-- Reads a key with fewer parts than a bound, and the blanks after it. -/
def keyParts? : Nat → List Char → Option (List String × List Char)
  | 0, _ => none
  | fuel + 1, cs => do
    let (part, rest) ← keyPart? (cs.dropWhile isSpace)
    match rest.dropWhile isSpace with
    | '.' :: after =>
      let (parts, rest) ← keyParts? fuel after
      return (part :: parts, rest)
    | rest => return ([part], rest)

/-- Reads a key, which may be a path. -/
def key? (cs : List Char) : Option (List String × List Char) := keyParts? (depthLimit - 1) cs

/-! ## Values -/

/-- Reads the items of a list after its opening bracket. -/
def items? (item : List Char → Option (Toml × List Char)) :
    Nat → List Char → Option (List Toml × List Char)
  | 0, _ => none
  | fuel + 1, cs => do
    match ← skip? cs with
    | ']' :: rest => return ([], rest)
    | start =>
      let (v, rest) ← item start
      match ← skip? rest with
      | ',' :: rest =>
        let (vs, rest) ← items? item fuel rest
        return (v :: vs, rest)
      | ']' :: rest => return ([v], rest)
      | _ => none

/-- Reads a key and its value. -/
def pair? (value : List Char → Option (Toml × List Char)) (cs : List Char) :
    Option ((List String × Toml) × List Char) := do
  match ← key? cs with
  | (key, '=' :: rest) =>
    let (v, rest) ← value (rest.dropWhile isSpace)
    return ((key, v), rest)
  | _ => none

/-- Reads the pairs of a table in braces, of which there is at least one. -/
def pairs? (value : List Char → Option (Toml × List Char)) :
    Nat → Entries → List Char → Option (Entries × List Char)
  | 0, _, _ => none
  | fuel + 1, entries, cs => do
    let ((key, v), rest) ← pair? value cs
    let entries ← enter? v true key entries
    match rest.dropWhile isSpace with
    | ',' :: rest => pairs? value fuel entries rest
    | '\x7d' :: rest => return (entries, rest)
    | _ => none

/-- Reads a value with a bound on its levels. -/
def value? : Nat → List Char → Option (Toml × List Char)
  | depth + 1, '[' :: rest =>
    (items? (value? depth) (rest.length + 1) rest).map fun (vs, after) => (.list vs, after)
  | depth + 1, '\x7b' :: rest =>
    match rest.dropWhile isSpace with
    | '\x7d' :: after => some (.table .closed [], after)
    | start =>
      (pairs? (value? depth) (start.length + 1) [] start).map fun (es, after) =>
        (.table .closed es, after)
  | _, cs => scalar? cs

/-! ## Documents -/

/-- The document so far, and the path of the table that is open. -/
structure Builder where
  header : List String
  root : Entries

/-- Reads the rest of a document. -/
def lines? : Nat → Builder → List Char → Option Builder
  | 0, _, _ => none
  | fuel + 1, b, cs => do
    match cs.dropWhile isSpace with
    | [] => return b
    | '[' :: '[' :: rest =>
      match ← key? rest with
      | (path, ']' :: ']' :: rest) =>
        let root ← openElement? path b.root
        lines? fuel ⟨path, root⟩ (← endLine? rest)
      | _ => none
    | '[' :: rest =>
      match ← key? rest with
      | (path, ']' :: rest) =>
        let root ← open? path b.root
        lines? fuel ⟨path, root⟩ (← endLine? rest)
      | _ => none
    | start =>
      if start.head? == some '#' || (lineBreak? start).isSome then
        lines? fuel b (← endLine? start)
      else
        let ((key, v), rest) ← pair? (value? (depthLimit - 1)) start
        let root ← within (enter? v true key) b.header b.root
        lines? fuel { b with root } (← endLine? rest)

/-- Leaves out a byte order mark at the start. -/
def skipMark : List Char → List Char
  | '\uFEFF' :: rest => rest
  | cs => cs

/-- The table that a document describes. -/
def parse? (s : String) : Option Toml :=
  let cs := skipMark s.toList
  (lines? (cs.length + 1) ⟨[], []⟩ cs).map fun b => .table .headed b.root

end CryptoAudit.Toml
