/-!
# UTF-8

The bytes of a code point, and the decomposition of a range of code points into sequences of byte
ranges: a code point is in the range just if its bytes are, one by one, in the ranges of one of the
sequences.
-/

namespace CryptoAudit.Text

/-- The bytes of a code point. -/
def utf8 (n : Nat) : List Nat :=
  if n < 0x80 then [n]
  else if n < 0x800 then [0xc0 + n / 64, 0x80 + n % 64]
  else if n < 0x10000 then [0xe0 + n / 4096, 0x80 + n / 64 % 64, 0x80 + n % 64]
  else [0xf0 + n / 262144, 0x80 + n / 4096 % 64, 0x80 + n / 64 % 64, 0x80 + n % 64]

/-- A range of bytes. -/
structure ByteRange where
  first : Nat
  last : Nat
deriving DecidableEq, Inhabited

/-- The code points with the same number of bytes, without those of surrogates. -/
def utf8Blocks : List (Nat × Nat) :=
  [(0, 0x7f), (0x80, 0x7ff), (0x800, 0xd7ff), (0xe000, 0xffff), (0x10000, 0x10ffff)]

/-- Cuts a range at multiples of the sizes, the smallest first, so that between two cuts at
multiples of a size the range holds whole blocks of this size. -/
def cutAt : List Nat → Nat → Nat → List (Nat × Nat)
  | [], first, last => [(first, last)]
  | size :: sizes, first, last =>
    if first / size = last / size then [(first, last)]
    else
      let low := (first + size - 1) / size * size
      let high := (last + 1) / size * size
      (if first < low then [(first, low - 1)] else []) ++
        (if low < high then cutAt sizes low (high - 1) else []) ++
        (if high ≤ last then [(high, last)] else [])

/-- The sequences of byte ranges of a range within a block. -/
def blockSequences (first last : Nat) : List (List ByteRange) :=
  let parts := if last < 0x80 then [(first, last)] else cutAt [64, 4096, 262144] first last
  parts.map fun (a, b) => (utf8 a).zipWith ByteRange.mk (utf8 b)

/-- The sequences of byte ranges of a range of code points. -/
def utf8Sequences (first last : Nat) : List (List ByteRange) :=
  utf8Blocks.flatMap fun (low, high) =>
    let a := max first low
    let b := min last high
    if a ≤ b then blockSequences a b else []

end CryptoAudit.Text
