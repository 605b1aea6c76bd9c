import CryptoAudit.Text.Numeral
import CryptoAudit.Yaml.Cursor

/-!
# YAML scalars

Plain scalars, scalars in quotation marks and scalars in blocks. In the first two, a single line
break is read as a space, and of several line breaks the first is left out. A reader takes the
place where it begins and gives its result with the place after it; `margin` is the least column of
the lines that belong to the scalar. All loops are bounded by the number of characters.
-/

namespace CryptoAudit.Yaml

/-- The blanks between two runs of characters. -/
structure Gap where
  /-- The blanks before the first line break. -/
  blanks : List Char
  /-- There is a line break. -/
  broken : Bool
  firstBreak : List Char
  moreBreaks : List Char

/-- Nothing between two runs. -/
def Gap.empty : Gap := ⟨[], false, [], []⟩

/-- What a gap is read as. -/
def Gap.text (g : Gap) : List Char :=
  if g.broken then
    if g.firstBreak = ['\n'] then
      if g.moreBreaks.isEmpty then [' '] else g.moreBreaks
    else g.firstBreak ++ g.moreBreaks
  else g.blanks

/-- Reads on in a gap. A tab before the margin is refused. -/
def gap? (margin : Nat) : Nat → Gap → Cursor → Option (Gap × Cursor)
  | 0, _, _ => none
  | fuel + 1, g, at0 =>
    match at0.rest with
    | [] => some (g, at0)
    | c :: _ =>
      if isBlank c then
        if g.broken then
          if at0.column < margin && c == '\t' then none else gap? margin fuel g (at0.move 1)
        else gap? margin fuel { g with blanks := g.blanks ++ [c] } (at0.move 1)
      else if isBreak c then
        let (b, next) := at0.newLine
        if g.broken then gap? margin fuel { g with moreBreaks := g.moreBreaks ++ b } next
        else gap? margin fuel ⟨[], true, b, []⟩ next
      else some (g, at0)

/-- Reads on in a gap, to its end. -/
def Gap.extend? (g : Gap) (margin : Nat) (at0 : Cursor) : Option (Gap × Cursor) :=
  gap? margin (at0.left + 1) g at0

/-! ## Plain scalars -/

/-- The characters have a meaning of their own between brackets and braces. -/
def isFlowMark (c : Char) : Bool :=
  c == ',' || c == '[' || c == ']' || c == '\x7b' || c == '\x7d'

/-- The characters up to a blank or a mark that ends a plain scalar. Between brackets or braces, a
colon right before such a mark is refused. -/
def plainRun? (flow : Bool) : List Char → Option (List Char)
  | [] => some []
  | c :: rest =>
    if isBlank c || isBreak c then some []
    else if flow && c == ':' && (rest.head?.any fun d => isFlowMark d || d == '?') then none
    else if (c == ':' && atBlank rest) || (flow && isFlowMark c) then some []
    else (plainRun? flow rest).map (c :: ·)

/-- Reads on in a plain scalar, after the characters `rev` in reverse and a gap. Gives the
characters, whether a line break follows them, and the place after them. -/
def plainRuns? (flow : Bool) (margin : Nat) :
    Nat → List Char → Gap → Cursor → Option (List Char × Bool × Cursor)
  | 0, _, _, _ => none
  | fuel + 1, rev, g, at0 =>
    if at0.atDocumentMark || at0.rest.head? == some '#' then some (rev.reverse, g.broken, at0)
    else do
      let run ← plainRun? flow at0.rest
      let after := at0.move run.length
      let rev := if run.isEmpty then rev else run.reverse ++ (g.text.reverse ++ rev)
      let g := if run.isEmpty then g else .empty
      if after.rest.isEmpty || !atBlank after.rest then return (rev.reverse, g.broken, after)
      else
        let (g, next) ← g.extend? margin after
        if !flow && next.column < margin then return (rev.reverse, g.broken, next)
        else plainRuns? flow margin fuel rev g next

/-- Reads a plain scalar. -/
def plain? (flow : Bool) (margin : Nat) (at0 : Cursor) : Option (List Char × Bool × Cursor) :=
  plainRuns? flow margin (at0.left + 2) [] .empty at0

/-! ## Scalars in quotation marks -/

/-- The character that a one-letter escape stands for. -/
def shortEscape? : Char → Option Char
  | '0' => some '\x00'
  | 'a' => some '\x07'
  | 'b' => some '\x08'
  | 't' | '\t' => some '\t'
  | 'n' => some '\n'
  | 'v' => some '\x0b'
  | 'f' => some '\x0c'
  | 'r' => some '\r'
  | 'e' => some '\x1b'
  | ' ' => some ' '
  | '"' => some '"'
  | '/' => some '/'
  | '\\' => some '\\'
  | 'N' => some '\u0085'
  | '_' => some '\u00a0'
  | 'L' => some '\u2028'
  | 'P' => some '\u2029'
  | _ => none

/-- The number of digits after the letter of an escape by code point. -/
def escapeWidth? : Char → Option Nat
  | 'x' => some 2
  | 'u' => some 4
  | 'U' => some 8
  | _ => none

/-- The character of an escape after its backslash, and the number of characters it takes. -/
def escape? : List Char → Option (Char × Nat)
  | [] => none
  | c :: rest =>
    match escapeWidth? c with
    | some width =>
      let digits := rest.take width
      if digits.length < width then none else (Text.hexScalar? digits).map (·, width + 1)
    | none => (shortEscape? c).map (·, 1)

/-- Reads on in a scalar with the given quotation mark, after the characters `rev` in reverse. -/
def quotedRuns? (mark : Char) : Nat → List Char → Cursor → Option (List Char × Cursor)
  | 0, _, _ => none
  | fuel + 1, rev, at0 =>
    if at0.atDocumentMark then none
    else
      match at0.rest with
      | [] => none
      | c :: next =>
        if c == mark then
          if mark == '\'' && next.head? == some '\'' then
            quotedRuns? mark fuel ('\'' :: rev) (at0.move 2)
          else some (rev.reverse, at0.move 1)
        else if mark == '"' && c == '\\' then
          if next.head?.any isBreak then do
            let (g, after) ← Gap.extend? ⟨[], true, [], []⟩ 0 (at0.move 1).newLine.2
            quotedRuns? mark fuel (g.text.reverse ++ rev) after
          else do
            let (d, width) ← escape? next
            quotedRuns? mark fuel (d :: rev) (at0.move (width + 1))
        else if isBlank c || isBreak c then do
          let (g, after) ← Gap.empty.extend? 0 at0
          quotedRuns? mark fuel (g.text.reverse ++ rev) after
        else quotedRuns? mark fuel (c :: rev) (at0.move 1)

/-- Reads a scalar in quotation marks, which begins with its mark. -/
def quoted? (mark : Char) (at0 : Cursor) : Option (List Char × Cursor) :=
  quotedRuns? mark (at0.left + 1) [] (at0.move 1)

/-! ## Scalars in blocks -/

/-- What becomes of the line breaks at the end of a block. -/
inductive Chomping where
  | strip
  | clip
  | keep
deriving DecidableEq

/-- Reads a mark of chomping, if there is one. -/
def splitChomping : List Char → Chomping × List Char
  | '+' :: rest => (.keep, rest)
  | '-' :: rest => (.strip, rest)
  | cs => (.clip, cs)

/-- Reads a digit of indentation, if there is one. It is not zero. -/
def splitIndentation? : List Char → Option (Option Nat × List Char)
  | [] => some (none, [])
  | c :: rest =>
    if c == '0' then none
    else if c.isDigit then some (some (c.toNat - 48), rest)
    else some (none, c :: rest)

/-- Reads the header of a block after its mark: chomping and indentation, in either order. -/
def blockHeader? (cs : List Char) : Option (Chomping × Option Nat) := do
  let (chomping, rest) := splitChomping cs
  let (indentation, rest) ← splitIndentation? rest
  return (if chomping = .clip then (splitChomping rest).1 else chomping, indentation)

/-- Skips a comment up to the end of its line. -/
def skipComment (at0 : Cursor) : Cursor :=
  if at0.rest.head? == some '#' then at0.move (at0.rest.takeWhile (!isBreak ·)).length else at0

/-- Reads empty lines in a block, and the blanks before the next line. Of a block whose indentation
is not known yet, all blanks belong to the indentation. Gives the line breaks, the widest
indentation and the place. -/
def blockBreaks? (indent : Option Nat) : Nat → List Char → Nat → Cursor →
    Option (List Char × Nat × Cursor)
  | 0, _, _, _ => none
  | fuel + 1, breaks, widest, at0 =>
    let spaces := (at0.rest.takeWhile (· == ' ')).length
    let count := match indent with
      | none => spaces
      | some n => min spaces (n - at0.column)
    let here := at0.move count
    let widest := max widest here.column
    if (indent.all fun n => here.column < n) && here.rest.head? == some '\t' then none
    else if here.rest.head?.any isBreak then
      let (b, next) := here.newLine
      blockBreaks? indent fuel (breaks ++ b) widest next
    else some (breaks, widest, here)

/-- The text of a block so far. -/
structure Block where
  /-- The characters, the last one first. -/
  rev : List Char
  /-- The line break after the last line. -/
  lastBreak : List Char
  /-- The line breaks of the empty lines after it. -/
  emptyBreaks : List Char
  /-- The last line began with a blank. -/
  blankStart : Bool

/-- The block with its next line, which begins with a blank or not. In a folded block, a line break
between two lines that begin without a blank is read as a space, or left out before empty
lines. -/
def Block.add (b : Block) (literal : Bool) (line : List Char) : Block :=
  let startsBlank := line.head?.any isBlank
  let join :=
    if !literal && b.lastBreak.head? == some '\n' && !b.blankStart && !startsBlank then
      if b.emptyBreaks.isEmpty then [' '] else []
    else b.lastBreak
  ⟨line.reverse ++ (b.emptyBreaks.reverse ++ (join.reverse ++ b.rev)), [], [], startsBlank⟩

/-- Reads the lines of a block with a known indentation. -/
def blockLines? (literal : Bool) (indent : Nat) : Nat → Block → Cursor → Option (Block × Cursor)
  | 0, _, _ => none
  | fuel + 1, b, at0 =>
    if at0.column == indent && !at0.rest.isEmpty then do
      let line := at0.rest.takeWhile (!isBreak ·)
      let (lastBreak, next) := (at0.move line.length).newLine
      let (emptyBreaks, _, after) ← blockBreaks? (some indent) (next.left + 1) [] 0 next
      blockLines? literal indent fuel { b.add literal line with lastBreak, emptyBreaks } after
    else some (b, at0)

/-- The text of a complete block. -/
def Block.finish (b : Block) : Chomping → List Char
  | .strip => b.rev.reverse
  | .clip => b.rev.reverse ++ b.lastBreak
  | .keep => b.rev.reverse ++ b.lastBreak ++ b.emptyBreaks

/-- Reads a block scalar, which begins with its mark. `margin` is one more than the column of the
structure that the block belongs to. -/
def block? (literal : Bool) (margin : Nat) (at0 : Cursor) : Option (List Char × Cursor) := do
  let opening := at0.move 1
  let (chomping, given) ← blockHeader? opening.rest
  let header := opening.move ((if chomping = .clip then 0 else 1) + (if given.isSome then 1 else 0))
  let eol := skipComment (header.move (header.rest.takeWhile isBlank).length)
  if eol.rest.isEmpty || eol.rest.head?.any isBreak then
    let body := eol.newLine.2
    let known := given.map (margin - 1 + ·)
    let (emptyBreaks, widest, first) ← blockBreaks? known (body.left + 1) [] 0 body
    let indent := known.getD (max 1 (max widest margin))
    let (b, after) ← blockLines? literal indent (first.left + 1)
      ⟨[], [], emptyBreaks, false⟩ first
    return (b.finish chomping, after)
  else none

end CryptoAudit.Yaml
