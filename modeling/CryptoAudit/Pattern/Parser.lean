import CryptoAudit.Pattern.Basic
import CryptoAudit.Text.Alphabetic
import CryptoAudit.Text.Numeral

/-!
# Reading patterns

The syntax: literals, `.`, classes with ranges, nesting, named sets and the operators `&&`, `--` and
`~~`; `^`, `$`, `\A`, `\z` and word boundaries; groups, which may be named or carry flags; flags
`i`, `m`, `s`, `x`, `U`, `u` and `R` that hold up to the end of their group; the repetitions `*`,
`+`, `?` and counts in braces, each of which may be lazy and may be repeated again; alternatives,
which may be empty; escapes. There are no look-around, no back-references and no classes by
property.

Groups and classes are read to the depth that is accepted at all; within a level, the number of
characters bounds the number of items.
-/

namespace CryptoAudit.Pattern

/-- What is left of the pattern, whether blanks are skipped there, and the names of the groups
before. -/
structure Cursor where
  rest : List Char
  extended : Bool
  names : List (List Char)
deriving Inhabited

/-- The cursor with another rest. -/
def Cursor.move (p : Cursor) (rest : List Char) : Cursor := { p with rest }

/-! ## Blanks -/

/-- Skips blanks and comments; a comment ends with its line. -/
def skipBlanks (inComment : Bool) : List Char → List Char
  | [] => []
  | c :: cs =>
    if inComment then skipBlanks (c != '\n') cs
    else if Text.isBlank c then skipBlanks false cs
    else if c == '#' then skipBlanks true cs
    else c :: cs

/-- Skips blanks and comments where the pattern may hold them. -/
def Cursor.skip (p : Cursor) : Cursor :=
  if p.extended then p.move (skipBlanks false p.rest) else p

/-- Goes on after characters and the blanks that follow them. -/
def Cursor.pass (p : Cursor) (rest : List Char) : Cursor := (p.move rest).skip

/-- Reads characters that satisfy a condition, with blanks between them and after them. -/
def Cursor.take (holds : Char → Bool) : Nat → Cursor → List Char × Cursor
  | 0, p => ([], p)
  | fuel + 1, p =>
    match p.rest with
    | [] => ([], p)
    | c :: rest =>
      if holds c then
        let (cs, q) := Cursor.take holds fuel (p.pass rest)
        (c :: cs, q)
      else ([], p)

/-- Reads all characters up to one that does not satisfy a condition. -/
def Cursor.takeAll (holds : Char → Bool) (p : Cursor) : List Char × Cursor :=
  p.take holds p.rest.length

/-! ## Escapes -/

/-- The characters with a meaning of their own. -/
def isMeta (c : Char) : Bool :=
  ['\\', '.', '+', '*', '?', '(', ')', '|', '[', ']', '\x7b', '\x7d', '^', '$', '#', '&', '-',
    '~'].contains c

/-- The characters that stand for themselves after a backslash. -/
def isEscapable (c : Char) : Bool :=
  isMeta c || (c.toNat < 128 && !c.isAlphanum && c != '<' && c != '>')

/-- The character is a hexadecimal digit. -/
def isHexDigit (c : Char) : Bool := (Text.hexDigit? c).isSome

/-- The character of a hexadecimal escape after its letter: the digits stand in braces or are
`width` many. -/
def hexEscape? (width : Nat) (p : Cursor) : Option (Letter × Cursor) :=
  match p.rest with
  | '\x7b' :: rest => do
    let (digits, q) := (p.pass rest).takeAll isHexDigit
    match q.rest with
    | '\x7d' :: after => return (⟨← Text.hexScalar? digits, false⟩, q.pass after)
    | _ => none
  | _ => do
    let (digits, q) := p.take isHexDigit width
    if digits.length < width then none
    else return (⟨← Text.hexScalar? digits, width == 2⟩, q)

/-- What an escape stands for. -/
inductive Escape where
  | letter (l : Letter)
  | kind (k : CharKind) (negated : Bool)
  | anchor (a : Anchor)

/-- The characters of the names of boundaries. -/
def isBoundaryChar (c : Char) : Bool := c.isAlpha || c == '-'

/-- The boundaries that have names. -/
def boundary? (name : List Char) : Option Anchor :=
  match String.ofList name with
  | "start" => some .wordStart
  | "end" => some .wordEnd
  | "start-half" => some .wordStartHalf
  | "end-half" => some .wordEndHalf
  | _ => none

/-- Reads the name of a boundary in its braces. Braces that do not begin with a name are left for a
count of repetitions. -/
def boundaryName? (p : Cursor) : Option (Anchor × Cursor) :=
  match p.rest with
  | '\x7b' :: rest =>
    let (name, q) := (p.pass rest).takeAll isBoundaryChar
    match name, q.rest with
    | [], [] => none
    | [], _ => some (.boundary, p)
    | _, '\x7d' :: after => (boundary? name).map (·, q.move after)
    | _, _ => none
  | _ => some (.boundary, p)

/-- The character that an escape of one letter stands for. -/
def control? : Char → Option Char
  | 'a' => some '\x07'
  | 'f' => some '\x0c'
  | 't' => some '\t'
  | 'n' => some '\n'
  | 'r' => some '\r'
  | 'v' => some '\x0b'
  | _ => none

/-- What other escapes of one letter stand for. -/
def letterEscape? : Char → Option Escape
  | 'd' => some (.kind .digit false)
  | 'D' => some (.kind .digit true)
  | 's' => some (.kind .blank false)
  | 'S' => some (.kind .blank true)
  | 'w' => some (.kind .word false)
  | 'W' => some (.kind .word true)
  | 'A' => some (.anchor .textStart)
  | 'z' => some (.anchor .textEnd)
  | 'B' => some (.anchor .notBoundary)
  | '<' => some (.anchor .wordStart)
  | '>' => some (.anchor .wordEnd)
  | c => (control? c).map fun d => .letter ⟨d, false⟩

/-- The number of digits of a hexadecimal escape with this letter. -/
def hexWidth? : Char → Option Nat
  | 'x' => some 2
  | 'u' => some 4
  | 'U' => some 8
  | _ => none

/-- Reads an escape after its backslash. -/
def escape? (p : Cursor) : Option (Escape × Cursor) :=
  match p.rest with
  | [] => none
  | c :: rest =>
    match hexWidth? c with
    | some width => (hexEscape? width (p.pass rest)).map fun (l, q) => (.letter l, q)
    | none =>
      if isEscapable c then some (.letter ⟨c, false⟩, p.move rest)
      else if c == 'b' then (boundaryName? (p.move rest)).map fun (a, q) => (.anchor a, q)
      else (letterEscape? c).map (·, p.move rest)

/-! ## Classes -/

/-- The named sets of ASCII characters. -/
def namedRanges? (name : List Char) : Option (List (Char × Char)) :=
  match String.ofList name with
  | "alnum" => some [('0', '9'), ('A', 'Z'), ('a', 'z')]
  | "alpha" => some [('A', 'Z'), ('a', 'z')]
  | "ascii" => some [('\x00', '\x7f')]
  | "blank" => some [('\t', '\t'), (' ', ' ')]
  | "cntrl" => some [('\x00', '\x1f'), ('\x7f', '\x7f')]
  | "digit" => some [('0', '9')]
  | "graph" => some [('!', '~')]
  | "lower" => some [('a', 'z')]
  | "print" => some [(' ', '~')]
  | "punct" => some [('!', '/'), (':', '@'), ('[', '\x60'), ('\x7b', '~')]
  | "space" => some [('\t', '\r'), (' ', ' ')]
  | "upper" => some [('A', 'Z')]
  | "word" => some [('0', '9'), ('A', 'Z'), ('_', '_'), ('a', 'z')]
  | "xdigit" => some [('0', '9'), ('A', 'F'), ('a', 'f')]
  | _ => none

/-- Reads a named set such as `[:alpha:]` or `[:^alpha:]` after its bracket. -/
def namedSet? : List Char → Option (ClassItem × List Char)
  | ':' :: rest =>
    let (negated, rest) := match rest with
      | '^' :: r => (true, r)
      | _ => (false, rest)
    let name := rest.takeWhile (· != ':')
    match rest.dropWhile (· != ':') with
    | ':' :: ']' :: after => (namedRanges? name).map fun rs => (.named rs negated, after)
    | _ => none
  | _ => none

/-- Reads an element of a class: a character, or a set that an escape stands for. -/
def classElement? (p : Cursor) : Option (ClassItem × Cursor) :=
  match p.rest with
  | [] => none
  | '\\' :: rest =>
    match escape? (p.move rest) with
    | some (.letter l, q) => some (.letter l, q)
    | some (.kind k negated, q) => some (.kind k negated, q)
    | _ => none
  | c :: rest => some (.letter ⟨c, false⟩, p.move rest)

/-- Reads an element or a range of a class. -/
def classItem? (p : Cursor) : Option (ClassItem × Cursor) := do
  let (first, p) ← classElement? p
  let p := p.skip
  match p.rest with
  | [] => none
  | '-' :: rest =>
    match (p.pass rest).rest with
    | [] => none
    | ']' :: _ | '-' :: _ => some (first, p)
    | _ =>
      let (last, q) ← classElement? (p.pass rest)
      match first, last with
      | .letter a, .letter b => if a.char ≤ b.char then some (.range a b, q) else none
      | _, _ => none
  | _ => some (first, p)

/-- The part of a class that has been read: what stands before the last operator, and the items
since then, the last one first. -/
structure ClassSoFar where
  before : Option (ClassItem × SetOp)
  items : List ClassItem

/-- The class that has been read. -/
def ClassSoFar.item (c : ClassSoFar) : ClassItem :=
  let last := ClassItem.ofItems c.items.reverse
  match c.before with
  | some (left, op) => .join op left last
  | none => last

/-- Adds an item. -/
def ClassSoFar.add (c : ClassSoFar) (i : ClassItem) : ClassSoFar := { c with items := i :: c.items }

/-- Goes past an operator. -/
def ClassSoFar.operator (c : ClassSoFar) (op : SetOp) : ClassSoFar := ⟨some (c.item, op), []⟩

/-- Reads the start of a class after its bracket: a negation, hyphens, and a closing bracket that
stands for itself if it is the first element. -/
def classStart (p : Cursor) : Bool × ClassSoFar × Cursor :=
  let p := p.skip
  let (negated, p) := match p.rest with
    | '^' :: rest => (true, p.pass rest)
    | _ => (false, p)
  let (hyphens, p) := p.takeAll (· == '-')
  let items := hyphens.map fun c => ClassItem.letter ⟨c, false⟩
  match items, p.rest with
  | [], ']' :: rest => (negated, ⟨none, [.letter ⟨']', false⟩]⟩, p.pass rest)
  | _, _ => (negated, ⟨none, items⟩, p)

/-- Reads the rest of a class with its closing bracket, where `nested` reads a class in it. -/
def classRest? (nested : Cursor → Option (ClassItem × Cursor)) :
    Nat → Cursor → ClassSoFar → Option (ClassItem × Cursor)
  | 0, _, _ => none
  | fuel + 1, p, c =>
    let p := p.skip
    match p.rest with
    | [] => none
    | ']' :: rest => some (c.item, p.move rest)
    | '[' :: rest =>
      match namedSet? rest with
      | some (i, rest) => classRest? nested fuel (p.move rest) (c.add i)
      | none => do
        let (i, p) ← nested (p.move rest)
        classRest? nested fuel p (c.add i)
    | '&' :: '&' :: rest => classRest? nested fuel (p.move rest) (c.operator .inter)
    | '-' :: '-' :: rest => classRest? nested fuel (p.move rest) (c.operator .diff)
    | '~' :: '~' :: rest => classRest? nested fuel (p.move rest) (c.operator .symmDiff)
    | _ => do
      let (i, p) ← classItem? p
      classRest? nested fuel p (c.add i)

/-- Reads a class after its opening bracket, with a bound on its levels. -/
def class? : Nat → Cursor → Option ((Bool × ClassItem) × Cursor)
  | 0, _ => none
  | depth + 1, p => do
    let (negated, c, q) := classStart p
    let nested := fun p => (class? depth p).map fun ((n, body), q) => (.bracketed n body, q)
    let (body, q) ← classRest? nested (q.rest.length + 1) q c
    return ((negated, body), q)

/-! ## Flags and groups -/

/-- The flag with this letter. -/
def Flag.ofLetter? : Char → Option Flag
  | 'i' => some .caseless
  | 'm' => some .multiLine
  | 's' => some .dotAll
  | 'U' => some .swapGreed
  | 'u' => some .unicode
  | 'R' => some .crlf
  | 'x' => some .extended
  | _ => none

/-- Reads flags up to the colon or parenthesis after them. No flag may be given twice, and a minus
sign, of which there may be one, must have flags after it. -/
def flags? (value : Bool) (seen : List Char) :
    List Char → Option (List (Flag × Bool) × List Char)
  | [] => none
  | c :: rest =>
    if c == ':' || c == ')' then
      if seen.head? == some '-' then none else some ([], c :: rest)
    else if seen.contains c then none
    else if c == '-' then flags? false ('-' :: seen) rest
    else do
      let flag ← Flag.ofLetter? c
      let (flags, rest) ← flags? value (c :: seen) rest
      return ((flag, value) :: flags, rest)

/-- The character may start the name of a group. -/
def isNameStart (c : Char) : Bool := c == '_' || Text.isAlphabetic c

/-- The character may stand in the name of a group. -/
def isNameChar (c : Char) : Bool :=
  c == '_' || c == '.' || c == '[' || c == ']' || Text.isAlphanumeric c

/-- Reads the name of a group with its closing bracket. -/
def groupName? (p : Cursor) (cs : List Char) : Option Cursor :=
  let name := cs.takeWhile (· != '>')
  match name, cs.dropWhile (· != '>') with
  | c :: more, _ :: rest =>
    if isNameStart c && more.all isNameChar && !p.names.contains name then
      some { p with rest, names := name :: p.names }
    else none
  | _, _ => none

/-- The start of a group. -/
inductive GroupStart where
  /-- Flags for what follows in the enclosing group. -/
  | setting (flags : List (Flag × Bool))
  | group (captures : Bool) (flags : List (Flag × Bool))

/-- Sets the flag for blanks. -/
def Cursor.set (p : Cursor) (flags : List (Flag × Bool)) : Cursor :=
  { p with extended := (flags.lookup .extended).getD p.extended }

/-- Reads what stands between the parenthesis of a group and its content. -/
def groupStart? (p : Cursor) : Option (GroupStart × Cursor) :=
  let p := p.skip
  match p.rest with
  | '?' :: '=' :: _ | '?' :: '!' :: _ | '?' :: '<' :: '=' :: _ | '?' :: '<' :: '!' :: _ => none
  | '?' :: 'P' :: '<' :: rest | '?' :: '<' :: rest =>
    (groupName? p rest).map (.group true [], ·)
  | '?' :: rest =>
    match flags? true [] rest with
    | some ([], ')' :: _) => none
    | some (flags, ')' :: after) => some (.setting flags, (p.move after).set flags)
    | some (flags, _ :: after) => some (.group false flags, (p.move after).set flags)
    | _ => none
  | _ => some (.group true [], p)

/-! ## Repetition -/

/-- Reads a decimal number below `2 ^ 32`, with blanks around it. -/
def count? (p : Cursor) : Option (Nat × Cursor) :=
  let (digits, q) := (p.move (p.rest.dropWhile Text.isBlank)).takeAll Char.isDigit
  let n := Text.ofDigits digits
  if digits.isEmpty || 0x100000000 ≤ n then none
  else some (n, q.move (q.rest.dropWhile Text.isBlank))

/-- Reads the counts of a repetition after their opening brace. -/
def counts? (p : Cursor) : Option (Nat × Option Nat × Cursor) := do
  let (min, p) ← count? p.skip
  match p.rest with
  | '\x7d' :: rest => return (min, some min, p.pass rest)
  | ',' :: rest =>
    let p := p.pass rest
    match p.rest with
    | '\x7d' :: rest => return (min, none, p.pass rest)
    | _ =>
      let (max, p) ← count? p
      match p.rest with
      | '\x7d' :: rest => if min ≤ max then return (min, some max, p.pass rest) else none
      | _ => none
  | _ => none

/-- Reads the mark of a lazy repetition, if there is one, and tells whether the repetition is
greedy. -/
def lazyMark (p : Cursor) : Bool × Cursor :=
  match p.rest with
  | '?' :: rest => (false, p.move rest)
  | _ => (true, p)

/-- Repeats the last of the items that have been read, which may not be flags. -/
def repeatLast? (min : Nat) (max : Option Nat) (greedy : Bool) :
    List Pattern → Option (List Pattern)
  | [] | .setting _ :: _ => none
  | p :: rev => some (.repeated p min max greedy :: rev)

/-! ## Expressions -/

/-- Reads a single character, class escape or anchor. -/
def primitive? (p : Cursor) : Option (Pattern × Cursor) :=
  match p.rest with
  | [] => none
  | '\\' :: rest =>
    (escape? (p.move rest)).map fun (e, q) =>
      (match e with
        | .letter l => .letter l
        | .kind k negated => .kind k negated
        | .anchor a => .anchor a,
        q)
  | '.' :: rest => some (.dot, p.move rest)
  | '^' :: rest => some (.anchor .lineStart, p.move rest)
  | '$' :: rest => some (.anchor .lineEnd, p.move rest)
  | c :: rest => some (.letter ⟨c, false⟩, p.move rest)

/-- Reads items up to the end of their alternative, after those given in reverse, where `content`
reads the content of a group. -/
def items? (content : Cursor → Option (Pattern × Cursor)) :
    Nat → Cursor → List Pattern → Option (Pattern × Cursor)
  | 0, _, _ => none
  | fuel + 1, p, rev =>
    let p := p.skip
    let repeated := fun min max (mark : Bool × Cursor) =>
      match repeatLast? min max mark.1 rev with
      | some rev => items? content fuel mark.2 rev
      | none => none
    match p.rest with
    | [] | '|' :: _ | ')' :: _ => some (ofParts rev.reverse, p)
    | '*' :: rest => repeated 0 none (lazyMark (p.move rest))
    | '+' :: rest => repeated 1 none (lazyMark (p.move rest))
    | '?' :: rest => repeated 0 (some 1) (lazyMark (p.move rest))
    | '\x7b' :: rest => do
      let (min, max, q) ← counts? (p.move rest)
      repeated min max (lazyMark q)
    | '[' :: rest => do
      let ((negated, body), q) ← class? (depthLimit + 1) (p.move rest)
      items? content fuel q (.bracketed negated body :: rev)
    | '(' :: rest => do
      match ← groupStart? (p.move rest) with
      | (.setting flags, q) => items? content fuel q (.setting flags :: rev)
      | (.group captures flags, q) =>
        let (r, q) ← content q
        match q.rest with
        | ')' :: after =>
          items? content fuel { q with rest := after, extended := p.extended }
            (.group captures flags r :: rev)
        | _ => none
    | _ => do
      let (r, q) ← primitive? p
      items? content fuel q (r :: rev)

/-- Reads alternatives up to the end of their group, after those given in reverse, where `branch`
reads one of them. -/
def branches? (branch : Cursor → Option (Pattern × Cursor)) :
    Nat → Cursor → List Pattern → Option (Pattern × Cursor)
  | 0, _, _ => none
  | fuel + 1, p, rev => do
    let (r, q) ← branch p
    match q.rest with
    | '|' :: rest => branches? branch fuel (q.move rest) (r :: rev)
    | _ => return (ofBranches (r :: rev).reverse, q)

/-- Reads the content of a group, with a bound on its levels. -/
def content? : Nat → Cursor → Option (Pattern × Cursor)
  | 0, _ => none
  | depth + 1, p =>
    branches? (fun q => items? (content? depth) (q.rest.length + 1) q []) (p.rest.length + 1) p []

/-- The pattern that a text writes. -/
def parse? (text : String) : Option Pattern :=
  match content? (depthLimit + 1) ⟨text.toList, false, []⟩ with
  | some (p, q) => if q.rest.isEmpty && p.depth ≤ depthLimit then some p else none
  | none => none

end CryptoAudit.Pattern
