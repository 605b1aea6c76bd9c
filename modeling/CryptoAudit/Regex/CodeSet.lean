import CryptoAudit.Regex.Basic
import CryptoAudit.Text.Utf8

/-!
# Sets of code points

A set of characters as ranges of code points, in ascending order, disjoint and with at least one
code point between two of them, so that equal sets have equal ranges.
-/

namespace CryptoAudit

/-- A set of code points by its ranges. -/
structure CodeSet where
  ranges : List (Nat × Nat)
deriving DecidableEq, Inhabited

namespace CodeSet

/-- Joins a range with the ranges after it that overlap it or follow it at once. -/
def joinFrom (first last : Nat) : List (Nat × Nat) → List (Nat × Nat)
  | [] => [(first, last)]
  | (a, b) :: rest =>
    if a ≤ last + 1 then joinFrom first (max last b) rest
    else (first, last) :: joinFrom a b rest

/-- The set of the code points of ranges in any order. -/
def ofRanges (rs : List (Nat × Nat)) : CodeSet :=
  match rs.mergeSort (fun r s => r.1 ≤ s.1) with
  | [] => ⟨[]⟩
  | (a, b) :: rest => ⟨joinFrom a b rest⟩

/-- The code points of both sets. -/
def union (s t : CodeSet) : CodeSet := ofRanges (s.ranges ++ t.ranges)

/-- The code points that are in each of two sets. -/
def inter (s t : CodeSet) : CodeSet :=
  ofRanges <| s.ranges.flatMap fun (a, b) => t.ranges.filterMap fun (c, d) =>
    if max a c ≤ min b d then some (max a c, min b d) else none

/-- The code points of characters from `next` on that are in none of the ranges. -/
def gaps (next : Nat) : List (Nat × Nat) → List (Nat × Nat)
  | [] => if next ≤ 0x10ffff then [(next, 0x10ffff)] else []
  | (a, b) :: rest =>
    let after := gaps (if b = 0xd7ff then 0xe000 else b + 1) rest
    if next < a then (next, if a = 0xe000 then 0xd7ff else a - 1) :: after else after

/-- The code points of characters that are not in the set. -/
def compl (s : CodeSet) : CodeSet := ⟨gaps 0 s.ranges⟩

/-- The code points of the characters that differ from others in case only. -/
def cased : List Nat :=
  Text.foldRuns.flatMap fun r =>
    (List.range ((r.last - r.first) / r.step + 1)).flatMap fun i =>
      [r.first + i * r.step, r.image + i * r.step]

/-- The code points of a class. -/
def ofClass : CharClass → CodeSet
  | .none => ⟨[]⟩
  | .range first last => ofRanges [(first.toNat, last.toNat)]
  | .foldedRange first last =>
    let variants := cased.filter fun n => (CharClass.foldedRange first last).mem (Char.ofNat n)
    ofRanges ((first.toNat, last.toNat) :: variants.map fun n => (n, n))
  | .digit => ofRanges Text.digitRanges
  | .word => ofRanges Text.wordRanges
  | .blank => ofRanges Text.blankRanges
  | .union a b => (ofClass a).union (ofClass b)
  | .inter a b => (ofClass a).inter (ofClass b)
  | .compl a => (ofClass a).compl

/-- The only code point of the set. -/
def single? (s : CodeSet) : Option Nat :=
  match s.ranges with
  | [(a, b)] => if a = b then some a else none
  | _ => none

/-- All code points are those of ASCII characters. -/
def isAscii (s : CodeSet) : Bool := s.ranges.all fun (_, b) => b < 0x80

/-- The sequences of byte ranges of the set. -/
def sequences (s : CodeSet) : List (List Text.ByteRange) :=
  s.ranges.flatMap fun (a, b) => Text.utf8Sequences a b

end CodeSet

end CryptoAudit
