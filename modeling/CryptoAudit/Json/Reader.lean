import CryptoAudit.Json.Value
import CryptoAudit.Text.Numeral

/-!
# Reading JSON

Reading goes in two steps, each a machine that consumes its input one element at a time: `lex` cuts
the characters into words, and `State.step` builds a value from the words with a stack of the
lists and objects that are still open. `Json.parse?` accepts exactly one value with blanks around
it. Blanks are space, tab, line feed and carriage return; nothing else is skipped.
-/

namespace CryptoAudit.Json

/-! ## Strings -/

/-- A part of a string: a character, or a surrogate written as an escape. -/
inductive Piece where
  | char (c : Char)
  | half (n : Nat)

/-- The part that a four-digit escape stands for. -/
def Piece.ofUnit (n : Nat) : Piece :=
  if 0xd800 ≤ n ∧ n < 0xe000 then .half n else .char (Char.ofNat n)

/-- The text of a string's parts, each leading surrogate joined to the trailing one after it. -/
def assemble? : List Piece → Option (List Char)
  | [] => some []
  | .char c :: rest => (assemble? rest).map (c :: ·)
  | .half hi :: .half lo :: rest =>
    if hi < 0xdc00 ∧ 0xdc00 ≤ lo then
      (assemble? rest).map (Char.ofNat (0x10000 + (hi - 0xd800) * 0x400 + (lo - 0xdc00)) :: ·)
    else none
  | .half _ :: _ => none

/-- The value of a string with these parts. -/
def ofPieces (ps : List Piece) : Json :=
  match assemble? ps with
  | some cs => .text (String.ofList cs)
  | none => .unpaired

/-- The character that a one-letter escape stands for. -/
def shortEscape? : Char → Option Char
  | '"' => some '"'
  | '\\' => some '\\'
  | '/' => some '/'
  | 'b' => some '\x08'
  | 'f' => some '\x0c'
  | 'n' => some '\n'
  | 'r' => some '\r'
  | 't' => some '\t'
  | _ => none

/-! ## Numbers and names -/

/-- The text is an exponent: a mark, an optional sign and at least one digit. -/
def isExponent : List Char → Bool
  | e :: rest =>
    (e == 'e' || e == 'E') &&
      match rest with
      | s :: digits =>
        if s == '+' || s == '-' then !digits.isEmpty && digits.all Char.isDigit
        else rest.all Char.isDigit
      | [] => false
  | [] => false

/-- The text may follow the integer part of a number that is no integer. -/
def isFraction : List Char → Bool
  | '.' :: rest =>
    let tail := rest.dropWhile Char.isDigit
    !(rest.takeWhile Char.isDigit).isEmpty && (tail.isEmpty || isExponent tail)
  | rest => isExponent rest

/-- The number written by an unsigned text, as its value `n` or as it stands. -/
def magnitude? (cs : List Char) : Option (Option Nat) :=
  let digits := cs.takeWhile Char.isDigit
  let rest := cs.dropWhile Char.isDigit
  if digits.isEmpty || (digits.head? == some '0' && digits.length != 1) then none
  else if rest.isEmpty then some (some (Text.ofDigits digits))
  else if isFraction rest then some none
  else none

/-- The scalar that a bare word stands for. -/
def ofWord? (cs : List Char) : Option Json :=
  match cs with
  | ['n', 'u', 'l', 'l'] => some .null
  | ['t', 'r', 'u', 'e'] => some (.bool true)
  | ['f', 'a', 'l', 's', 'e'] => some (.bool false)
  | '-' :: rest =>
    (magnitude? rest).map fun
      | some 0 | none => .real (String.ofList cs)
      | some n => .int (-(n : Int))
  | _ =>
    (magnitude? cs).map fun
      | some n => .int n
      | none => .real (String.ofList cs)

/-- Characters of bare words: names and numbers. -/
def isWordChar (c : Char) : Bool :=
  c.isAlphanum || c == '+' || c == '-' || c == '.'

/-! ## Words -/

/-- What the lexer is inside of. Characters read so far stand in reverse. -/
inductive Mode where
  | between
  | word (rev : List Char)
  | string (rev : List Piece)
  | escape (rev : List Piece)
  /-- Inside a four-digit escape, with `left` digits to come and the value so far. -/
  | unit (rev : List Piece) (left value : Nat)

/-- What a character between two words begins or is. -/
def opening? (c : Char) : Option (List Token × Mode) :=
  if c == ' ' || c == '\t' || c == '\n' || c == '\r' then some ([], .between)
  else if c == '[' then some ([.beginList], .between)
  else if c == ']' then some ([.endList], .between)
  else if c == '\x7b' then some ([.beginObject], .between)
  else if c == '\x7d' then some ([.endObject], .between)
  else if c == ':' then some ([.colon], .between)
  else if c == ',' then some ([.comma], .between)
  else if c == '"' then some ([], .string [])
  else if isWordChar c then some ([], .word [c])
  else none

/-- The words of a text, read on from a mode. -/
def lex : Mode → List Char → Option (List Token)
  | .between, [] => some []
  | .word rev, [] => (ofWord? rev.reverse).map fun v => [.scalar v]
  | .string _, [] | .escape _, [] | .unit .., [] => none
  | .between, c :: cs =>
    match opening? c with
    | some (ts, mode) => (lex mode cs).map (ts ++ ·)
    | none => none
  | .word rev, c :: cs =>
    if isWordChar c then lex (.word (c :: rev)) cs
    else
      match ofWord? rev.reverse, opening? c with
      | some v, some (ts, mode) => (lex mode cs).map (.scalar v :: ts ++ ·)
      | _, _ => none
  | .string rev, c :: cs =>
    if c == '"' then (lex .between cs).map (.scalar (ofPieces rev.reverse) :: ·)
    else if c == '\\' then lex (.escape rev) cs
    else if c.toNat < 0x20 then none
    else lex (.string (.char c :: rev)) cs
  | .escape rev, c :: cs =>
    if c == 'u' then lex (.unit rev 3 0) cs
    else
      match shortEscape? c with
      | some d => lex (.string (.char d :: rev)) cs
      | none => none
  | .unit rev left value, c :: cs =>
    match Text.hexDigit? c with
    | some d =>
      match left with
      | 0 => lex (.string (.ofUnit (value * 16 + d) :: rev)) cs
      | left + 1 => lex (.unit rev left (value * 16 + d)) cs
    | none => none

/-! ## Values -/

/-- A list or object that is still open, with what it holds so far in reverse. A member's name is
missing if it holds an unpaired surrogate. -/
inductive Frame where
  | items (rev : List Json)
  | members (rev : List (Option String × Json)) (name : Option String)

/-- Where the reader stands between two words. -/
inductive State where
  /-- A value must follow. -/
  | value (stack : List Frame)
  /-- A list has just been opened. -/
  | firstItem (stack : List Frame)
  /-- An object has just been opened. -/
  | firstMember (stack : List Frame)
  /-- A member must follow. -/
  | member (stack : List Frame) (rev : List (Option String × Json))
  /-- A colon must follow the name. -/
  | colon (stack : List Frame) (rev : List (Option String × Json)) (name : Option String)
  /-- A value has just ended. -/
  | after (stack : List Frame) (v : Json)

/-- The object with these members, given in reverse. -/
def closeObject (rev : List (Option String × Json)) : Json :=
  match rev.reverse.mapM fun m => m.1.map fun k => (k, m.2) with
  | some ms => .object ms
  | none => .unpaired

/-- Where a value begins. -/
def beginValue (stack : List Frame) : Token → Option State
  | .scalar v => some (.after stack v)
  | .beginList => some (.firstItem stack)
  | .beginObject => some (.firstMember stack)
  | _ => none

/-- Where a member begins. -/
def beginMember (stack : List Frame) (rev : List (Option String × Json)) : Token → Option State
  | .scalar (.text k) => some (.colon stack rev (some k))
  | .scalar .unpaired => some (.colon stack rev none)
  | _ => none

/-- One word. -/
def State.step : State → Token → Option State
  | .value fs, t => beginValue fs t
  | .firstItem fs, .endList => some (.after fs (.list []))
  | .firstItem fs, t => beginValue (.items [] :: fs) t
  | .firstMember fs, .endObject => some (.after fs (.object []))
  | .firstMember fs, t => beginMember fs [] t
  | .member fs rev, t => beginMember fs rev t
  | .colon fs rev k, .colon => some (.value (.members rev k :: fs))
  | .colon .., _ => none
  | .after (.items rev :: fs) v, .comma => some (.value (.items (v :: rev) :: fs))
  | .after (.items rev :: fs) v, .endList => some (.after fs (.list (v :: rev).reverse))
  | .after (.members rev k :: fs) v, .comma => some (.member fs ((k, v) :: rev))
  | .after (.members rev k :: fs) v, .endObject => some (.after fs (closeObject ((k, v) :: rev)))
  | .after .., _ => none

/-- The value that has been read when the words end. -/
def State.finish? : State → Option Json
  | .after [] v => some v
  | _ => none

/-- The value that these words write. -/
def ofTokens? (ts : List Token) : Option Json :=
  (ts.foldlM State.step (.value [])).bind State.finish?

/-- The value that a text writes. -/
def parse? (s : String) : Option Json :=
  (lex .between s.toList).bind ofTokens?

end CryptoAudit.Json
