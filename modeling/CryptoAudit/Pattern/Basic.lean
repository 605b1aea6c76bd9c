/-!
# Patterns as they are written

The syntax of regular expressions as a tree. A pattern may set flags that change how the rest of its
group is read, so what a part matches depends on what stands before it; `Pattern.resolve?` takes the
flags into account.
-/

namespace CryptoAudit

namespace Pattern

/-- What a pattern can turn on and off. -/
inductive Flag where
  /-- Letters match letters that differ in case only. -/
  | caseless
  /-- `^` and `$` match at the start and end of each line. -/
  | multiLine
  /-- `.` matches line breaks, too. -/
  | dotAll
  /-- Repetitions are lazy, and those with the mark of lazy ones are greedy. -/
  | swapGreed
  /-- Characters and classes are those of Unicode and not of ASCII. -/
  | unicode
  /-- A carriage return ends a line, too. -/
  | crlf
  /-- Blanks and comments in the pattern have no meaning. -/
  | extended
deriving DecidableEq, Inhabited

/-- A character of a pattern. -/
structure Letter where
  char : Char
  /-- Written as two hexadecimal digits, which stand for a byte where there is no Unicode. -/
  isByte : Bool
deriving DecidableEq, Inhabited

/-- The classes that have an escape. -/
inductive CharKind where
  | digit
  | blank
  | word
deriving DecidableEq, Inhabited

/-- The conditions on a position. -/
inductive Anchor where
  | lineStart
  | lineEnd
  | textStart
  | textEnd
  | boundary
  | notBoundary
  | wordStart
  | wordEnd
  /-- No word ends at the position. -/
  | wordStartHalf
  /-- No word starts at the position. -/
  | wordEndHalf
deriving DecidableEq, Inhabited

/-- How the part of a class after an operator joins the part before. -/
inductive SetOp where
  | inter
  | diff
  | symmDiff
deriving DecidableEq, Inhabited

/-- What stands in a class in brackets. -/
inductive ClassItem where
  | letter (l : Letter)
  | range (first last : Letter)
  /-- A set with a name, by its ranges of ASCII characters. -/
  | named (ranges : List (Char × Char)) (negated : Bool)
  | kind (k : CharKind) (negated : Bool)
  | bracketed (negated : Bool) (body : ClassItem)
  | union (items : List ClassItem)
  | join (op : SetOp) (left right : ClassItem)
deriving Inhabited

end Pattern

open Pattern in
/-- A regular expression as it is written. -/
inductive Pattern where
  | empty
  /-- Sets flags for what follows in the group. -/
  | setting (flags : List (Flag × Bool))
  | letter (l : Letter)
  | dot
  | anchor (a : Anchor)
  | kind (k : CharKind) (negated : Bool)
  | bracketed (negated : Bool) (body : ClassItem)
  | repeated (p : Pattern) (min : Nat) (max : Option Nat) (greedy : Bool)
  | group (captures : Bool) (flags : List (Flag × Bool)) (p : Pattern)
  | alternation (branches : List Pattern)
  | sequence (parts : List Pattern)
deriving Inhabited

namespace Pattern

/-- A class with these items. -/
def ClassItem.ofItems : List ClassItem → ClassItem
  | [i] => i
  | is => .union is

/-- The parts in sequence. -/
def ofParts : List Pattern → Pattern
  | [] => .empty
  | [p] => p
  | ps => .sequence ps

/-- One of the branches. -/
def ofBranches : List Pattern → Pattern
  | [p] => p
  | ps => .alternation ps

/-! ## Depth -/

mutual

/-- The number of levels in what stands in a class. -/
def ClassItem.depth : ClassItem → Nat
  | .letter _ | .range _ _ | .named _ _ | .kind _ _ | .union [] => 0
  | .bracketed _ body => body.depth + 1
  | .union (i :: is) => max i.depth (ClassItem.depthOfAll is) + 1
  | .join _ left right => max left.depth right.depth + 1

/-- The largest number of levels of several items. -/
def ClassItem.depthOfAll : List ClassItem → Nat
  | [] => 0
  | i :: is => max i.depth (ClassItem.depthOfAll is)

end

mutual

/-- The number of levels of a pattern. -/
def depth : Pattern → Nat
  | .empty | .setting _ | .letter _ | .dot | .anchor _ | .kind _ _ => 0
  | .bracketed _ body => body.depth + 1
  | .repeated p _ _ _ => p.depth + 1
  | .group _ _ p => p.depth + 1
  | .alternation ps => depthOfAll ps + 1
  | .sequence ps => depthOfAll ps + 1

/-- The largest number of levels of several patterns. -/
def depthOfAll : List Pattern → Nat
  | [] => 0
  | p :: ps => max p.depth (depthOfAll ps)

end

/-- The largest number of levels of a pattern that is accepted. -/
def depthLimit : Nat := 250

end Pattern

end CryptoAudit
