import CryptoAudit.Json.Reader
import CryptoAudit.Text.Numeral
import CryptoAudit.Toml.Value

/-!
# TOML scalars

Texts in their four forms, numbers, truth values, dates and times. A reader takes characters and
gives its result with the characters after it.
-/

namespace CryptoAudit.Toml

/-- Characters that may stand in texts and comments: tabs and all that is no control character. -/
def isPlain (c : Char) : Bool := c == '\t' || (0x20 ≤ c.toNat && c.toNat != 0x7f)

/-- Blanks within a line. -/
def isSpace (c : Char) : Bool := c == ' ' || c == '\t'

/-- Skips a line break. -/
def lineBreak? : List Char → Option (List Char)
  | '\n' :: rest => some rest
  | '\r' :: '\n' :: rest => some rest
  | _ => none

/-! ## Texts -/

/-- The character that a one-letter escape stands for. -/
def shortEscape? (c : Char) : Option Char := if c = '/' then none else Json.shortEscape? c

/-- Reads a text on one line, after its opening quotation mark. -/
def basicText? : List Char → Option (List Char × List Char)
  | [] => none
  | '"' :: rest => some ([], rest)
  | '\\' :: 'u' :: a :: b :: c :: d :: rest => do
    let (s, after) ← basicText? rest
    return ((← Text.hexScalar? [a, b, c, d]) :: s, after)
  | '\\' :: 'U' :: a :: b :: c :: d :: e :: f :: g :: h :: rest => do
    let (s, after) ← basicText? rest
    return ((← Text.hexScalar? [a, b, c, d, e, f, g, h]) :: s, after)
  | '\\' :: c :: rest => do
    let (s, after) ← basicText? rest
    return ((← shortEscape? c) :: s, after)
  | c :: rest => do
    let (s, after) ← basicText? rest
    if isPlain c && c != '\\' then return (c :: s, after) else none

/-- Reads a text on one line without escapes, after its opening apostrophe. -/
def literalText? (cs : List Char) : Option (List Char × List Char) :=
  match cs.dropWhile (fun c => isPlain c && c != '\'') with
  | '\'' :: rest => some (cs.takeWhile fun c => isPlain c && c != '\'', rest)
  | _ => none

/-- The marks that still belong to a text after three closing marks: at most two. -/
def trailingMarks (mark : Char) : List Char → List Char × List Char
  | a :: b :: rest =>
    if a = mark then
      if b = mark then ([a, b], rest) else ([a], b :: rest)
    else ([], a :: b :: rest)
  | [a] => if a = mark then ([a], []) else ([], [a])
  | [] => ([], [])

/-- The line ends here, apart from blanks. -/
def atLineEnd (cs : List Char) : Bool := (lineBreak? (cs.dropWhile isSpace)).isSome

/-- Reads a text on several lines, after its opening marks. While `skipping`, after a backslash at
the end of a line, blanks and line breaks are left out. -/
def basicLines? (skipping : Bool) : List Char → Option (List Char × List Char)
  | [] => none
  | '"' :: '"' :: '"' :: rest => some (trailingMarks '"' rest)
  | '\\' :: 'u' :: a :: b :: c :: d :: rest => do
    let (s, after) ← basicLines? false rest
    return ((← Text.hexScalar? [a, b, c, d]) :: s, after)
  | '\\' :: 'U' :: a :: b :: c :: d :: e :: f :: g :: h :: rest => do
    let (s, after) ← basicLines? false rest
    return ((← Text.hexScalar? [a, b, c, d, e, f, g, h]) :: s, after)
  | '\\' :: c :: rest =>
    if atLineEnd (c :: rest) then basicLines? true (c :: rest)
    else do
      let (s, after) ← basicLines? false rest
      return ((← shortEscape? c) :: s, after)
  | '\r' :: '\n' :: rest => do
    let (s, after) ← basicLines? skipping rest
    return (if skipping then s else '\n' :: s, after)
  | c :: rest =>
    if skipping && (isSpace c || c == '\n') then basicLines? true rest
    else if (isPlain c && c != '\\') || c == '\n' then do
      let (s, after) ← basicLines? false rest
      return (c :: s, after)
    else none

/-- Reads a text on several lines without escapes, after its opening marks. -/
def literalLines? : List Char → Option (List Char × List Char)
  | [] => none
  | '\'' :: '\'' :: '\'' :: rest => some (trailingMarks '\'' rest)
  | '\r' :: '\n' :: rest => do
    let (s, after) ← literalLines? rest
    return ('\n' :: s, after)
  | c :: rest => do
    let (s, after) ← literalLines? rest
    if isPlain c || c == '\n' then return (c :: s, after) else none

/-- Leaves out a line break at the start. -/
def skipLineBreak (cs : List Char) : List Char := (lineBreak? cs).getD cs

/-- Reads a text in any of the four forms. -/
def text? : List Char → Option (List Char × List Char)
  | '"' :: '"' :: '"' :: rest => basicLines? false (skipLineBreak rest)
  | '\'' :: '\'' :: '\'' :: rest => literalLines? (skipLineBreak rest)
  | '"' :: rest => basicText? rest
  | '\'' :: rest => literalText? rest
  | _ => none

/-! ## Numbers -/

/-- The characters without the low lines between digits; no result where one stands elsewhere. -/
def joined? (isDigit : Char → Bool) : List Char → Option (List Char)
  | [] => some []
  | [c] => if isDigit c then some [c] else none
  | c :: '_' :: rest =>
    if isDigit c && !rest.isEmpty then (joined? isDigit rest).map (c :: ·) else none
  | c :: rest => if isDigit c then (joined? isDigit rest).map (c :: ·) else none

/-- The digits of a decimal number, without leading zeros. -/
def decimal? (cs : List Char) : Option (List Char) := do
  let digits ← joined? Char.isDigit cs
  if digits.isEmpty || (digits.head? == some '0' && digits.length != 1) then none else return digits

/-- Splits off a sign. -/
def splitSign : List Char → Bool × List Char
  | '+' :: rest => (false, rest)
  | '-' :: rest => (true, rest)
  | cs => (false, cs)

/-- The number if it has at most 64 bits with its sign. -/
def signed? (n : Int) : Option Toml :=
  if -0x8000000000000000 ≤ n ∧ n < 0x8000000000000000 then some (.int n) else none

/-- The integer that is written in a base. -/
def inBase? (base : Nat) (cs : List Char) : Option Toml := do
  let digits ← joined? (fun c => (Text.digit? base c).isSome) cs
  signed? (← Text.number? base digits)

/-- The integer with this text. -/
def integer? (cs : List Char) : Option Toml :=
  match cs with
  | '0' :: 'x' :: digits => inBase? 16 digits
  | '0' :: 'o' :: digits => inBase? 8 digits
  | '0' :: 'b' :: digits => inBase? 2 digits
  | _ => do
    let (negative, rest) := splitSign cs
    let n ← Text.number? 10 (← decimal? rest)
    signed? (if negative then -(n : Int) else n)

/-- Digits that may begin with zeros. -/
def digits? (cs : List Char) : Option (List Char) :=
  if cs.isEmpty then none else joined? Char.isDigit cs

/-- The exponent that is written with its mark. -/
def exponent? : List Char → Option Int
  | [] => none
  | mark :: cs =>
    if mark == 'e' || mark == 'E' then
      let (negative, rest) := splitSign cs
      (digits? rest).map fun ds =>
        let n := Text.ofDigits ds
        if negative then -(n : Int) else n
    else none

/-- The digits and the exponent of a number without sign that has a fraction or an exponent: it is
the number that the digits write times a power of ten. -/
def scientific? (cs : List Char) : Option (List Char × Int) := do
  let isDigitOrLine := fun (c : Char) => c.isDigit || c == '_'
  let whole ← decimal? (cs.takeWhile isDigitOrLine)
  match cs.dropWhile isDigitOrLine with
  | '.' :: tail =>
    let fraction ← digits? (tail.takeWhile isDigitOrLine)
    let exponent ← match tail.dropWhile isDigitOrLine with
      | [] => some 0
      | rest => exponent? rest
    return (whole ++ fraction, exponent - fraction.length)
  | rest => return (whole, ← exponent? rest)

/-- The least number that has no nearest floating-point number: half a unit above the largest. -/
def realLimit : Nat := 0x3fffffffffffff <<< 970

/-- The number with these digits and this exponent is too large for a floating-point number. If it
is not zero, its number of digits tells unless it has 309 digits before the point. -/
def isTooLarge (digits : List Char) (exponent : Int) : Bool :=
  let n := Text.ofDigits digits
  let places := (digits.dropWhile (· == '0')).length + exponent
  if n = 0 || places < 309 then false
  else if 309 < places then true
  else if 0 ≤ exponent then realLimit ≤ n * Nat.pow 10 exponent.toNat
  else realLimit * Nat.pow 10 (-exponent).toNat ≤ n

/-- The text is that of a number with a fraction or an exponent, or without a finite value. A number
that is too large is refused unless it is negative. -/
def isReal (cs : List Char) : Bool :=
  let (negative, rest) := splitSign cs
  rest == ['i', 'n', 'f'] || rest == ['n', 'a', 'n'] ||
    (scientific? rest).any fun (digits, exponent) => negative || !isTooLarge digits exponent

/-! ## Dates and times -/

/-- The number of two digits. -/
def twoDigits? (a b : Char) : Option Nat := Text.number? 10 [a, b]

/-- The number of days in a month. -/
def daysIn (year month : Nat) : Nat :=
  if month = 2 then
    if year % 4 = 0 ∧ (year % 100 ≠ 0 ∨ year % 400 = 0) then 29 else 28
  else if month = 4 ∨ month = 6 ∨ month = 9 ∨ month = 11 then 30
  else 31

/-- Reads a date. -/
def date? : List Char → Option (List Char)
  | a :: b :: c :: d :: '-' :: e :: f :: '-' :: g :: h :: rest => do
    let year ← Text.number? 10 [a, b, c, d]
    let month ← twoDigits? e f
    let day ← twoDigits? g h
    if 1 ≤ month ∧ month ≤ 12 ∧ 1 ≤ day ∧ day ≤ daysIn year month then return rest else none
  | _ => none

/-- Reads a fraction of a second, if there is one. -/
def secondFraction? : List Char → Option (List Char)
  | '.' :: rest =>
    if (rest.takeWhile Char.isDigit).isEmpty then none else some (rest.dropWhile Char.isDigit)
  | rest => some rest

/-- Reads a time of day. -/
def time? : List Char → Option (List Char)
  | a :: b :: ':' :: c :: d :: ':' :: e :: f :: rest => do
    let hour ← twoDigits? a b
    let minute ← twoDigits? c d
    let second ← twoDigits? e f
    if hour ≤ 23 ∧ minute ≤ 59 ∧ second ≤ 60 then secondFraction? rest else none
  | _ => none

/-- The text is a distance from universal time, or empty. -/
def isOffset : List Char → Bool
  | [] | ['Z'] | ['z'] => true
  | [s, a, b, ':', c, d] =>
    (s == '+' || s == '-') &&
      match twoDigits? a b, twoDigits? c d with
      | some hour, some minute => hour ≤ 23 && minute ≤ 59
      | _, _ => false
  | _ => false

/-- The text is that of a time of day with or without a distance from universal time. -/
def isTime (cs : List Char) : Bool :=
  match time? cs with
  | some rest => isOffset rest
  | none => false

/-- The text is a date, a date and a time, or a time of day. -/
def isMoment (cs : List Char) : Bool :=
  match date? cs with
  | some [] => true
  | some (mark :: rest) => (mark == 'T' || mark == 't') && isTime rest
  | none => time? cs == some []

/-! ## Words -/

/-- Characters of bare words. -/
def isWordChar (c : Char) : Bool :=
  c.isAlphanum || c == '+' || c == '-' || c == '.' || c == '_' || c == ':'

/-- The value that a bare word stands for. -/
def ofWord? (cs : List Char) : Option Toml :=
  match cs with
  | ['t', 'r', 'u', 'e'] => some (.bool true)
  | ['f', 'a', 'l', 's', 'e'] => some (.bool false)
  | _ =>
    if isMoment cs then some (.moment (String.ofList cs))
    else if isReal cs then some (.real (String.ofList cs))
    else integer? cs

/-- Reads a text or a bare word. A time may follow its date after a space. -/
def scalar? (cs : List Char) : Option (Toml × List Char) :=
  match cs with
  | '"' :: _ | '\'' :: _ => (text? cs).map fun (s, rest) => (.text (String.ofList s), rest)
  | _ =>
    let word := cs.takeWhile isWordChar
    let rest := cs.dropWhile isWordChar
    match date? word, rest with
    | some [], ' ' :: after =>
      if isTime (after.takeWhile isWordChar) then
        some (.moment (String.ofList (word ++ ' ' :: after.takeWhile isWordChar)),
          after.dropWhile isWordChar)
      else some (.moment (String.ofList word), rest)
    | _, _ => (ofWord? word).map (·, rest)

end CryptoAudit.Toml
