/-!
# Places in a YAML text

Layout carries meaning in YAML, so reading keeps track of lines and columns. A line ends with a
carriage return, a line feed, both, or one of the separators of Unicode.
-/

namespace CryptoAudit.Yaml

/-- The character ends a line. -/
def isBreak (c : Char) : Bool :=
  c == '\n' || c == '\r' || c == '\u0085' || c == '\u2028' || c == '\u2029'

/-- Blanks within a line. -/
def isBlank (c : Char) : Bool := c == ' ' || c == '\t'

/-- The characters begin with a blank or a line break, or there are none. -/
def atBlank : List Char → Bool
  | [] => true
  | c :: _ => isBlank c || isBreak c

/-- A character that may stand in a text. -/
def isAllowed (c : Char) : Bool :=
  c == '\t' || c == '\n' || c == '\r' || (' ' ≤ c && c ≤ '~') || c == '\u0085' ||
    ('\u00a0' ≤ c && c != '\ufffe' && c != '\uffff')

/-- The number of bytes that characters take in UTF-8. -/
def width (cs : List Char) : Nat := cs.foldl (fun n c => n + c.utf8Size) 0

/-- The rest of a text, and where it begins. -/
structure Cursor where
  rest : List Char
  /-- The number of characters of the rest, which bounds all loops over it. -/
  left : Nat
  /-- The number of bytes before. -/
  index : Nat
  line : Nat
  column : Nat

namespace Cursor

/-- The start of a text. -/
def start (cs : List Char) : Cursor := ⟨cs, cs.length, 0, 0, 0⟩

/-- Moves over characters of a line. -/
def move (c : Cursor) (count : Nat) : Cursor :=
  { c with
    rest := c.rest.drop count
    left := c.left - count
    index := c.index + width (c.rest.take count)
    column := c.column + count }

/-- Moves over a line break, and gives the characters that it stands for. -/
def newLine (c : Cursor) : List Char × Cursor :=
  match c.rest with
  | '\r' :: '\n' :: rest => (['\n'], ⟨rest, c.left - 2, c.index + 2, c.line + 1, 0⟩)
  | b :: rest =>
    if isBreak b then
      (if b == '\u2028' || b == '\u2029' then [b] else ['\n'],
        ⟨rest, c.left - 1, c.index + b.utf8Size, c.line + 1, 0⟩)
    else ([], c)
  | [] => ([], c)

/-- Moves over a byte order mark at the start of a line. It takes up a column. -/
def skipByteOrderMark (c : Cursor) : Cursor :=
  if c.column == 0 && c.rest.head? == some '\uFEFF' then c.move 1 else c

/-- The mark of a document's start or end stands here. -/
def atMark (c : Cursor) (mark : Char) : Bool :=
  c.column == 0 && c.rest.take 3 == [mark, mark, mark] && atBlank (c.rest.drop 3)

/-- A document starts or ends here. -/
def atDocumentMark (c : Cursor) : Bool := c.atMark '-' || c.atMark '.'

end Cursor

end CryptoAudit.Yaml
