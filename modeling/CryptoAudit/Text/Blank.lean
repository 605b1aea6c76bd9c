/-!
# Blank characters

The characters with the Unicode property White_Space.
-/

namespace CryptoAudit.Text

/-- A character lies in one of these ranges of code points. -/
def inRanges (ranges : List (Nat × Nat)) (c : Char) : Bool :=
  ranges.any fun (first, last) => first ≤ c.toNat && c.toNat ≤ last

/-- The ranges of the property White_Space. -/
def blankRanges : List (Nat × Nat) := [
  (0x9, 0xd), (0x20, 0x20), (0x85, 0x85), (0xa0, 0xa0), (0x1680, 0x1680), (0x2000, 0x200a),
  (0x2028, 0x2029), (0x202f, 0x202f), (0x205f, 0x205f), (0x3000, 0x3000)]

/-- The character is a blank. -/
def isBlank (c : Char) : Bool := inRanges blankRanges c

/-- A text that is empty but for blanks. -/
def isBlankText (s : String) : Bool := s.toList.all isBlank

end CryptoAudit.Text
