import CryptoAudit.Yaml.Property
import CryptoAudit.Yaml.Scalar
import CryptoAudit.Yaml.Value

/-!
# The layout of YAML

The words of a YAML text, with the structure that the layout gives to them: where a line begins
further right than the collection around it, a new collection is opened, and where one begins
further left, all collections to the right of it are closed.

Whether a scalar is a key is known only when a colon follows. Therefore the scanner remembers the
last place where a key may have begun, one for each level of brackets and braces, and puts the
marks of a key there once the colon is found. Such a key stands on one line and is not longer than
`keyLimit`; where the layout requires a key, it is an error not to find its colon.

Anchors get numbers here: the number of names that have been given to anchors before. A name that
is given again therefore takes the number of the next new name.
-/

namespace CryptoAudit.Yaml

/-- The words of YAML. -/
inductive Token where
  | directive
  | documentStart
  | documentEnd
  | openList
  | openMapping
  | close
  | entry
  | key
  | value
  | beginList
  | endList
  | beginMapping
  | endMapping
  | comma
  | anchor (number : Nat)
  | reference (number : Nat)
  | tag (t : String)
  | scalar (style : Style) (s : String)
deriving DecidableEq, Inhabited

/-- A place where a key may have begun. -/
structure Candidate where
  /-- The number of words before it. -/
  position : Nat
  index : Nat
  line : Nat
  column : Nat
  /-- The layout requires a key here. -/
  required : Bool
deriving DecidableEq

/-- The largest number of bytes of a key that is not marked as one. -/
def keyLimit : Nat := 1024

/-- The state between two words. -/
structure Scanner where
  cursor : Cursor
  /-- One more than the column of the innermost open collection; 0 outside of all. -/
  margin : Nat
  /-- The margins of the collections around it. -/
  margins : List Nat
  /-- A key may begin here. -/
  keyAllowed : Bool
  /-- The last place where a key may have begun. -/
  candidate : Option Candidate
  /-- The same for the levels of brackets and braces around. -/
  outer : List (Option Candidate)
  /-- The words so far, the last one first. -/
  words : List Token
  /-- The number of words so far. -/
  count : Nat
  /-- The names of anchors with their numbers. -/
  anchors : List (String × Nat)
  /-- What directives say that handles stand for. -/
  handles : List (String × String)
  /-- A directive has told the version. -/
  versioned : Bool

namespace Scanner

/-- The start of a text. -/
def start (cs : List Char) : Scanner := ⟨.start cs, 0, [], true, none, [], [], 0, [], [], false⟩

/-- The scanner is between brackets or braces. -/
def inFlow (s : Scanner) : Bool := !s.outer.isEmpty

/-- Adds a word. -/
def emit (s : Scanner) (t : Token) : Scanner :=
  { s with words := t :: s.words, count := s.count + 1 }

/-- Puts a word at a position. -/
def emitAt (s : Scanner) (position : Nat) (t : Token) : Scanner :=
  let later := s.count - position
  { s with words := s.words.take later ++ t :: s.words.drop later, count := s.count + 1 }

/-- Moves to where the rest of the line begins. -/
def moveTo (s : Scanner) (rest : List Char) : Scanner :=
  { s with cursor := s.cursor.move (s.cursor.rest.length - rest.length) }

/-! ## Collections by layout -/

/-- Closes the collections to the right of a margin. -/
def closeTo (margin : Nat) : Nat → Scanner → Scanner
  | 0, s => s
  | fuel + 1, s =>
    if s.margin ≤ margin then s
    else
      closeTo margin fuel
        { s.emit .close with margin := s.margins.headD 0, margins := s.margins.drop 1 }

/-- Closes the collections to the right of a margin, outside of brackets and braces. -/
def unroll (s : Scanner) (margin : Nat) : Scanner :=
  if s.inFlow then s else closeTo margin (s.margins.length + 1) s

/-- Opens a collection at a column, outside of brackets and braces, if that is further right. -/
def roll (s : Scanner) (column position : Nat) (t : Token) : Scanner :=
  if s.inFlow || column + 1 ≤ s.margin then s
  else
    { s.emitAt position t with margin := column + 1, margins := s.margin :: s.margins }

/-! ## Keys -/

/-- Forgets the last candidate, unless the layout requires it. -/
def dropKey? (s : Scanner) : Option Scanner :=
  if s.candidate.any (·.required) then none else some { s with candidate := none }

/-- Remembers this place, where a key may begin. -/
def markKey? (s : Scanner) : Option Scanner :=
  if s.keyAllowed then do
    let s ← s.dropKey?
    let required := !s.inFlow && s.margin == s.cursor.column + 1
    let candidate : Candidate :=
      ⟨s.count, s.cursor.index, s.cursor.line, s.cursor.column, required⟩
    return { s with candidate := some candidate }
  else some s

/-- A candidate is forgotten once the line has ended or the key has become too long. -/
def freshKey? (c : Cursor) : Option Candidate → Option (Option Candidate)
  | none => some none
  | some k =>
    if k.line < c.line || k.index + keyLimit < c.index then
      if k.required then none else some none
    else some (some k)

/-- Forgets the candidates that can no longer be keys. -/
def refreshKeys? (s : Scanner) : Option Scanner := do
  return { s with
    candidate := ← freshKey? s.cursor s.candidate
    outer := ← s.outer.mapM (freshKey? s.cursor) }

/-! ## Words -/

/-- Skips blanks, comments, line breaks and byte order marks at the start of lines up to the next
word. A tab is no blank where a key may begin. -/
def skipBlanks : Nat → Scanner → Scanner
  | 0, s => s
  | fuel + 1, s =>
    let isSkipped := fun (c : Char) => c == ' ' || (c == '\t' && (s.inFlow || !s.keyAllowed))
    let c := s.cursor.skipByteOrderMark
    let c := skipComment (c.move (c.rest.takeWhile isSkipped).length)
    if c.rest.head?.any isBreak then
      skipBlanks fuel { s with cursor := c.newLine.2, keyAllowed := s.keyAllowed || !s.inFlow }
    else { s with cursor := c }

/-- The mark of a document's start or end. -/
def documentMark? (s : Scanner) (t : Token) : Option Scanner := do
  let s ← (s.unroll 0).dropKey?
  return { s.emit t with cursor := s.cursor.move 3, keyAllowed := false }

/-- A directive. None may be given twice. -/
def directiveWord? (s : Scanner) (rest : List Char) : Option Scanner := do
  let s ← (s.unroll 0).dropKey?
  let (d, rest) ← directive? rest
  let s ← match d with
    | .version => if s.versioned then none else some { s with versioned := true }
    | .handle name text =>
      if (s.handles.lookup name).isSome then none
      else some { s with handles := (name, text) :: s.handles }
  let s := s.moveTo rest
  return { s.emit .directive with cursor := s.cursor.newLine.2, keyAllowed := false }

/-- An anchor. -/
def anchorWord? (s : Scanner) (rest : List Char) : Option Scanner := do
  let s ← s.markKey?
  let (name, rest) ← anchorName? rest
  let number := s.anchors.length
  let s := { s.emit (.anchor number) with
    keyAllowed := false
    anchors := (name, number) :: s.anchors.filter (·.1 != name) }
  return s.moveTo rest

/-- A reference to an anchor before. -/
def referenceWord? (s : Scanner) (rest : List Char) : Option Scanner := do
  let s ← s.markKey?
  let (name, rest) ← anchorName? rest
  let number ← s.anchors.lookup name
  return { s.emit (.reference number) with keyAllowed := false }.moveTo rest

/-- A tag. -/
def tagWord? (s : Scanner) : Option Scanner := do
  let s ← s.markKey?
  let (t, rest) ← tag? (s.handles ++ standardHandles) s.cursor.rest
  if atBlank rest || (s.inFlow && rest.head? == some ',') then
    return { s.emit (.tag t) with keyAllowed := false }.moveTo rest
  else none

/-- An opening bracket or brace. -/
def beginFlow? (s : Scanner) (t : Token) : Option Scanner := do
  let s ← s.markKey?
  return { s.emit t with
    cursor := s.cursor.move 1, keyAllowed := true,
    candidate := none, outer := s.candidate :: s.outer }

/-- A closing bracket or brace. -/
def endFlow? (s : Scanner) (t : Token) : Option Scanner := do
  let s ← s.dropKey?
  return { s.emit t with
    cursor := s.cursor.move 1, keyAllowed := false,
    candidate := s.outer.headD none, outer := s.outer.drop 1 }

/-- A comma. -/
def comma? (s : Scanner) : Option Scanner := do
  let s ← s.dropKey?
  return { s.emit .comma with cursor := s.cursor.move 1, keyAllowed := true }

/-- The mark of a list's entry. -/
def entry? (s : Scanner) : Option Scanner := do
  if !s.inFlow && !s.keyAllowed then none
  else
    let s ← (s.roll s.cursor.column s.count .openList).dropKey?
    return { s.emit .entry with cursor := s.cursor.move 1, keyAllowed := true }

/-- The mark of a key. -/
def key? (s : Scanner) : Option Scanner := do
  if !s.inFlow && !s.keyAllowed then none
  else
    let s ← (s.roll s.cursor.column s.count .openMapping).dropKey?
    return { s.emit .key with cursor := s.cursor.move 1, keyAllowed := !s.inFlow }

/-- The mark of a value. -/
def value? (s : Scanner) : Option Scanner :=
  match s.candidate with
  | some k =>
    let s := (s.emitAt k.position .key).roll k.column k.position .openMapping
    some { s.emit .value with cursor := s.cursor.move 1, candidate := none, keyAllowed := false }
  | none =>
    if !s.inFlow && !s.keyAllowed then none
    else
      let s := s.roll s.cursor.column s.count .openMapping
      some { s.emit .value with cursor := s.cursor.move 1, keyAllowed := !s.inFlow }

/-- A scalar in a block. -/
def blockScalar? (s : Scanner) (literal : Bool) : Option Scanner := do
  let s ← s.dropKey?
  let (text, cursor) ← block? literal s.margin s.cursor
  let style := if literal then .literal else .quoted
  return { s.emit (.scalar style (String.ofList text)) with cursor, keyAllowed := true }

/-- A scalar in quotation marks. -/
def quotedScalar? (s : Scanner) (mark : Char) : Option Scanner := do
  let s ← s.markKey?
  let (text, cursor) ← quoted? mark s.cursor
  return { s.emit (.scalar .quoted (String.ofList text)) with cursor, keyAllowed := false }

/-- A plain scalar. -/
def plainScalar? (s : Scanner) : Option Scanner := do
  let s ← s.markKey?
  let (text, broken, cursor) ← plain? s.inFlow s.margin s.cursor
  return { s.emit (.scalar .plain (String.ofList text)) with cursor, keyAllowed := broken }

/-- A plain scalar may begin with this character, whatever follows. -/
def beginsPlain (c : Char) : Bool :=
  !(isBlank c || isBreak c ||
    ['-', '?', ':', ',', '[', ']', '\x7b', '\x7d', '#', '&', '*', '!', '|', '>', '\'', '"', '%',
      '@', '\u0060'].contains c)

/-- Reads a word that begins with `c`, where `rest` follows. -/
def word? (s : Scanner) (c : Char) (rest : List Char) : Option Scanner :=
  if s.cursor.column == 0 && c == '%' then s.directiveWord? rest
  else if s.cursor.atMark '-' then s.documentMark? .documentStart
  else if s.cursor.atMark '.' then s.documentMark? .documentEnd
  else if c == '[' then s.beginFlow? .beginList
  else if c == '\x7b' then s.beginFlow? .beginMapping
  else if c == ']' then s.endFlow? .endList
  else if c == '\x7d' then s.endFlow? .endMapping
  else if c == ',' then s.comma?
  else if c == '-' && atBlank rest then s.entry?
  else if c == '?' && (s.inFlow || atBlank rest) then s.key?
  else if c == ':' && (s.inFlow || atBlank rest) then s.value?
  else if c == '*' then s.referenceWord? rest
  else if c == '&' then s.anchorWord? rest
  else if c == '!' then s.tagWord?
  else if c == '|' && !s.inFlow then s.blockScalar? true
  else if c == '>' && !s.inFlow then s.blockScalar? false
  else if c == '\'' || c == '"' then s.quotedScalar? c
  else if beginsPlain c || c == '-' || (!s.inFlow && (c == '?' || c == ':')) then s.plainScalar?
  else none

/-- Reads all words. -/
def run? : Nat → Scanner → Option (List Token)
  | 0, _ => none
  | fuel + 1, s => do
    let s ← (skipBlanks (s.cursor.left + 1) s).refreshKeys?
    match s.cursor.rest with
    | [] =>
      let s ← (s.unroll 0).dropKey?
      return s.words.reverse
    | c :: rest => run? fuel (← (s.unroll (s.cursor.column + 1)).word? c rest)

end Scanner

/-- The words of a text. -/
def tokens? (s : String) : Option (List Token) :=
  let cs := s.toList
  if cs.all isAllowed then (Scanner.start cs).run? (cs.length + 1) else none

end CryptoAudit.Yaml
