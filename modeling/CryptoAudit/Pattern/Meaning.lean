import CryptoAudit.Pattern.Basic
import CryptoAudit.Regex.Basic

/-!
# What patterns mean

The flags that hold at a part of a pattern decide which expression it stands for. Without the flag
for Unicode, a part that can match other bytes than those of ASCII characters is refused, since it
could match a fraction of a character.
-/

namespace CryptoAudit.Pattern

/-- The flags that hold at a part of a pattern. -/
structure Modes where
  caseless : Bool := false
  multiLine : Bool := false
  dotAll : Bool := false
  swapGreed : Bool := false
  unicode : Bool := true
  crlf : Bool := false
deriving DecidableEq, Inhabited

namespace Modes

/-- Sets a flag. -/
def set (m : Modes) : Flag × Bool → Modes
  | (.caseless, b) => { m with caseless := b }
  | (.multiLine, b) => { m with multiLine := b }
  | (.dotAll, b) => { m with dotAll := b }
  | (.swapGreed, b) => { m with swapGreed := b }
  | (.unicode, b) => { m with unicode := b }
  | (.crlf, b) => { m with crlf := b }
  | (.extended, _) => m

/-- Sets flags. -/
def setAll (m : Modes) (flags : List (Flag × Bool)) : Modes := flags.foldl set m

/-! ## Sets -/

/-- The part of a range that lies between two characters, with its code points moved. -/
def moved (first last low high : Char) (move : Nat → Nat) : CharClass :=
  let a := max first.toNat low.toNat
  let b := min last.toNat high.toNat
  if a ≤ b then .range (Char.ofNat (move a)) (Char.ofNat (move b)) else .none

/-- The characters of a range, and ASCII letters that differ from one of them in case only. -/
def asciiFolded (first last : Char) : CharClass :=
  .union (.range first last)
    (.union (moved first last 'A' 'Z' (· + 32)) (moved first last 'a' 'z' (· - 32)))

/-- A range of characters. -/
def range (m : Modes) (first last : Char) : CharClass :=
  if !m.caseless then .range first last
  else if m.unicode then .foldedRange first last
  else asciiFolded first last

/-- The union of ranges. -/
def ranges (m : Modes) (rs : List (Char × Char)) : CharClass :=
  rs.foldl (fun s (first, last) => .union s (m.range first last)) .none

/-- A set or, if it is negated, its complement, which holds more than ASCII characters. -/
def negate? (m : Modes) (negated : Bool) (s : CharClass) : Option CharClass :=
  if negated then (if m.unicode then some (.compl s) else none) else some s

/-- The ASCII characters of a kind. -/
def asciiRanges : CharKind → List (Char × Char)
  | .digit => [('0', '9')]
  | .blank => [('\t', '\r'), (' ', ' ')]
  | .word => [('0', '9'), ('A', 'Z'), ('_', '_'), ('a', 'z')]

/-- The characters of a kind. -/
def kind (m : Modes) (k : CharKind) : CharClass :=
  if m.unicode then
    match k with
    | .digit => .digit
    | .blank => .blank
    | .word => .word
  else (asciiRanges k).foldl (fun s (first, last) => .union s (.range first last)) .none

/-- The characters of words. -/
def word (m : Modes) : CharClass := m.kind .word

/-- The character that a letter stands for; a byte beyond ASCII is none. -/
def char? (m : Modes) (l : Letter) : Option Char :=
  if !m.unicode && l.isByte && 0x7f < l.char.toNat then none else some l.char

/-- The character that a letter stands for in a class. -/
def classChar? (m : Modes) (l : Letter) : Option Char :=
  if !m.unicode && 0x7f < l.char.toNat then none else some l.char

end Modes

/-- Joins two parts of a class. -/
def SetOp.apply : SetOp → CharClass → CharClass → CharClass
  | .inter, a, b => .inter a b
  | .diff, a, b => a.diff b
  | .symmDiff, a, b => a.symmDiff b

mutual

/-- The set that stands in a class. -/
def ClassItem.set? (m : Modes) : ClassItem → Option CharClass
  | .letter l => do
    let c ← m.classChar? l
    return m.range c c
  | .range first last => do return m.range (← m.classChar? first) (← m.classChar? last)
  | .named ranges negated => m.negate? negated (m.ranges ranges)
  | .kind k negated => m.negate? negated (m.kind k)
  | .bracketed negated body => do m.negate? negated (← body.set? m)
  | .union items => ClassItem.union? m items
  | .join op left right => do return op.apply (← left.set? m) (← right.set? m)

/-- The union of the sets of several items. -/
def ClassItem.union? (m : Modes) : List ClassItem → Option CharClass
  | [] => some .none
  | i :: is => do return .union (← i.set? m) (← ClassItem.union? m is)

end

/-! ## Expressions -/

namespace Modes

/-- A letter. -/
def letter? (m : Modes) (l : Letter) : Option Regex := do
  let c ← m.char? l
  if !m.caseless then return .char c
  else if m.unicode then return .folded c
  else if c.isAlpha then return .set (asciiFolded c c)
  else return .char c

/-- Any character, or any but those that end a line. -/
def dot? (m : Modes) : Option Regex :=
  if !m.unicode then none
  else if m.dotAll then some (.set (.compl .none))
  else if m.crlf then some (.set (.compl (.union (.range '\n' '\n') (.range '\r' '\r'))))
  else some (.set (.compl (.range '\n' '\n')))

/-- A condition on a position. -/
def anchor (m : Modes) : Anchor → Assertion
  | .lineStart => if !m.multiLine then .textStart else if m.crlf then .breakStart else .lineStart
  | .lineEnd => if !m.multiLine then .textEnd else if m.crlf then .breakEnd else .lineEnd
  | .textStart => .textStart
  | .textEnd => .textEnd
  | .boundary => .boundary m.word
  | .notBoundary => .notBoundary m.word
  | .wordStart => .wordStart m.word
  | .wordEnd => .wordEnd m.word
  | .wordStartHalf => .noneBefore m.word
  | .wordEndHalf => .noneAfter m.word

end Modes

mutual

/-- The expression that a pattern stands for where these flags hold, and the flags that hold after
it. -/
def resolve? : Pattern → Modes → Option (Regex × Modes)
  | .empty, m => some (.empty, m)
  | .setting flags, m => some (.empty, m.setAll flags)
  | .letter l, m => (m.letter? l).map (·, m)
  | .dot, m => m.dot?.map (·, m)
  | .anchor a, m => some (.assert (m.anchor a), m)
  | .kind k negated, m => (m.negate? negated (m.kind k)).map (.set ·, m)
  | .bracketed negated body, m => do
    let s ← m.negate? negated (← body.set? m)
    return (.set s, m)
  | .repeated p min max greedy, m => do
    let (r, m) ← p.resolve? m
    return (.repeated r min max (greedy != m.swapGreed), m)
  | .group captures flags p, m => do
    let (r, _) ← p.resolve? (m.setAll flags)
    return (.group captures r, m)
  | .alternation branches, m => resolveBranches? branches m
  | .sequence parts, m => resolveParts? parts m

/-- The expression that alternatives stand for. -/
def resolveBranches? : List Pattern → Modes → Option (Regex × Modes)
  | [], m => some (.set .none, m)
  | [p], m => p.resolve? m
  | p :: q :: ps, m => do
    let (a, m) ← p.resolve? m
    let (b, m) ← resolveBranches? (q :: ps) m
    return (.alt a b, m)

/-- The expression that parts in sequence stand for. -/
def resolveParts? : List Pattern → Modes → Option (Regex × Modes)
  | [], m => some (.empty, m)
  | [p], m => p.resolve? m
  | p :: q :: ps, m => do
    let (a, m) ← p.resolve? m
    let (b, m) ← resolveParts? (q :: ps) m
    return (.seq a b, m)

end

/-- The expression that a pattern stands for. -/
def meaning? (p : Pattern) : Option Regex := (p.resolve? {}).map (·.1)

end CryptoAudit.Pattern
