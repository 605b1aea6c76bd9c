import CryptoAudit.Text.CaseFold
import CryptoAudit.Text.WordChar

/-!
# Regular expressions

An expression relates positions of a text: it leads from `i` to `j` if it matches the characters
from `i` up to `j`. `Regex.reach` computes the positions that an expression leads to from a set of
positions, so that matching takes time polynomial in the text. Sets of positions are descending
lists. The search is not anchored: `Regex.isMatch` asks whether the expression leads anywhere from
any position. Which of several matches is preferred plays no part in that, so lazy and greedy
repetition are the same, and so are groups that capture and those that do not.
-/

namespace CryptoAudit

/-- A set of characters. -/
inductive CharClass where
  | none
  | range (first last : Char)
  /-- The characters that differ in case only from one of the range. -/
  | foldedRange (first last : Char)
  | digit
  | word
  | blank
  | union (a b : CharClass)
  | inter (a b : CharClass)
  | compl (a : CharClass)
deriving DecidableEq, Inhabited

namespace CharClass

/-- The character is in the set. -/
def mem : CharClass → Char → Bool
  | .none, _ => false
  | .range first last, c => first ≤ c && c ≤ last
  | .foldedRange first last, c => (Text.caseVariants c).any fun v => first ≤ v && v ≤ last
  | .digit, c => Text.isDigit c
  | .word, c => Text.isWord c
  | .blank, c => Text.isBlank c
  | .union a b, c => a.mem c || b.mem c
  | .inter a b, c => a.mem c && b.mem c
  | .compl a, c => !a.mem c

/-- The characters of `a` that are not in `b`. -/
def diff (a b : CharClass) : CharClass := .inter a (.compl b)

/-- The characters of exactly one of both. -/
def symmDiff (a b : CharClass) : CharClass := .union (a.diff b) (b.diff a)

end CharClass

/-- A condition on a position of a text. -/
inductive Assertion where
  | textStart
  | textEnd
  | lineStart
  | lineEnd
  /-- The start of a line, where a carriage return, a line feed or both end a line. -/
  | breakStart
  /-- The end of a line, where a carriage return, a line feed or both end a line. -/
  | breakEnd
  /-- Of the characters around the position one is in the class, and one is not or is missing. -/
  | boundary (w : CharClass)
  | notBoundary (w : CharClass)
  /-- A word starts at the position. -/
  | wordStart (w : CharClass)
  | wordEnd (w : CharClass)
  /-- The character before the position is not in the class, or there is none. -/
  | noneBefore (w : CharClass)
  | noneAfter (w : CharClass)
deriving DecidableEq, Inhabited

/-- The character before a position. -/
def charBefore? (text : Array Char) : Nat → Option Char
  | 0 => none
  | i + 1 => text[i]?

/-- The condition holds at a position. -/
def Assertion.holds (text : Array Char) (i : Nat) (a : Assertion) : Bool :=
  let before := charBefore? text i
  let after := text[i]?
  match a with
  | .textStart => i == 0
  | .textEnd => i == text.size
  | .lineStart => i == 0 || before == some '\n'
  | .lineEnd => i == text.size || after == some '\n'
  | .breakStart =>
    i == 0 || before == some '\n' || (before == some '\r' && after != some '\n')
  | .breakEnd =>
    i == text.size || after == some '\r' || (after == some '\n' && before != some '\r')
  | .boundary w => before.any w.mem != after.any w.mem
  | .notBoundary w => before.any w.mem == after.any w.mem
  | .wordStart w => !before.any w.mem && after.any w.mem
  | .wordEnd w => before.any w.mem && !after.any w.mem
  | .noneBefore w => !before.any w.mem
  | .noneAfter w => !after.any w.mem

/-- A regular expression. -/
inductive Regex where
  | empty
  | char (c : Char)
  /-- A character that differs from `c` in case only. -/
  | folded (c : Char)
  | set (s : CharClass)
  | assert (a : Assertion)
  | seq (a b : Regex)
  | alt (a b : Regex)
  /-- At least `min` and, if `max` is given, at most `max` times. -/
  | repeated (a : Regex) (min : Nat) (max : Option Nat) (greedy : Bool)
  | group (captures : Bool) (a : Regex)
deriving DecidableEq, Inhabited

namespace Regex

/-! ## Sets of positions -/

/-- The members of two sets of positions. -/
def unite : List Nat → List Nat → List Nat
  | [], b => b
  | x :: xs, b =>
    let rest := b.dropWhile (x < ·)
    b.takeWhile (x < ·) ++ x :: unite xs (if rest.head? == some x then rest.tail else rest)

/-- The members of the first set that are not in the second. -/
def without : List Nat → List Nat → List Nat
  | [], _ => []
  | x :: xs, b =>
    let rest := b.dropWhile (x < ·)
    if rest.head? == some x then without xs rest else x :: without xs rest

/-- Applies `step` `n` times. -/
def times (step : List Nat → List Nat) : Nat → List Nat → List Nat
  | 0, starts => starts
  | n + 1, starts => if starts.isEmpty then [] else times step n (step starts)

/-- Adds to the positions `seen` those that up to `n` steps from `latest` lead to. Only positions
that have just been found are taken further. -/
def upTo (step : List Nat → List Nat) : Nat → List Nat → List Nat → List Nat
  | 0, _, seen => seen
  | n + 1, latest, seen =>
    let new := without (step latest) seen
    if new.isEmpty then seen else upTo step n new (unite new seen)

/-! ## Matching -/

/-- The positions after a character that satisfies `p`. -/
def afterChar (text : Array Char) (p : Char → Bool) (starts : List Nat) : List Nat :=
  (starts.filter fun i => text[i]?.any p).map (· + 1)

/-- The positions to which the expression leads from the positions `starts`. Positions never go
back, so in a text of `n` characters at most `n` repetitions get further: of the required ones,
`n + 1` lead where any larger number does, and of the others, `n` lead to all positions. -/
def reach (text : Array Char) : Regex → List Nat → List Nat
  | .empty, starts => starts
  | .char c, starts => afterChar text (· == c) starts
  | .folded c, starts =>
    let image := Text.foldCase c
    afterChar text (fun d => Text.foldCase d == image) starts
  | .set s, starts => afterChar text s.mem starts
  | .assert a, starts => starts.filter fun i => a.holds text i
  | .seq a b, starts => b.reach text (a.reach text starts)
  | .alt a b, starts => unite (a.reach text starts) (b.reach text starts)
  | .repeated a min max _, starts =>
    let least := times (a.reach text) (Nat.min min (text.size + 1)) starts
    let more := match max with
      | some m => Nat.min (m - min) text.size
      | none => text.size
    upTo (a.reach text) more least least
  | .group _ a, starts => a.reach text starts

/-- The expression matches somewhere in the text. -/
def isMatch (r : Regex) (s : String) : Bool :=
  let text := s.toList.toArray
  !(r.reach text (List.range (text.size + 1)).reverse).isEmpty

end Regex

end CryptoAudit
