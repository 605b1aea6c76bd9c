import CryptoAudit.Pattern.Meaning
import CryptoAudit.Pattern.Parser
import CryptoAudit.Regex.Automaton

/-!
# Compilation of patterns

A text is a valid pattern if it can be read, each part has a meaning where it stands, and the
automata for the expression are not too large. Most expressions are so small that a rough bound on
the size of their automata shows it. Classes by Unicode property (`\p{Lu}`) are not among the
patterns that are read here. Rules do not depend on this compiler: they take any
(`RuleSet.ofRawWith`).
-/

namespace CryptoAudit

/-- A bound on the memory that a class takes in an automaton: a range of code points takes less than
4096 bytes, and a character with its variants in case less than 1024. -/
def CharClass.weight : CharClass → Nat
  | .none => 64
  | .range _ _ => 4096
  | .foldedRange first last => 4096 + 1024 * (last.toNat + 1 - first.toNat)
  | .digit => 4096 * Text.digitRanges.length
  | .word => 4096 * Text.wordRanges.length
  | .blank => 4096 * Text.blankRanges.length
  | .union a b => a.weight + b.weight
  | .inter a b => a.weight + b.weight
  | .compl a => a.weight + 4096

namespace Regex

/-- A bound on the memory that an expression takes in an automaton. -/
def weight : Regex → Nat
  | .empty | .assert _ => 64
  | .char _ => 256
  | .folded _ => 1024
  | .set s => s.weight
  | .seq a b => a.weight + b.weight
  | .alt a b => a.weight + b.weight + 256
  | .repeated a min max _ => (a.weight + 256) * (max.getD min + 2)
  | .group _ a => a.weight + 64

/-- The automata of the expression are small enough. -/
def fits (r : Regex) : Bool :=
  r.weight + 1024 ≤ Automaton.limit || Automaton.fits (Shape.ofRegex r)

/-- The expression that a text writes as a pattern, or why it writes none. -/
def compile (text : String) : Except String Regex :=
  match (Pattern.parse? text).bind Pattern.meaning? with
  | none => .error "regex parse error"
  | some r =>
    if r.fits then .ok r
    else .error ("Compiled regex exceeds size limit of " ++ toString Automaton.limit ++ " bytes.")

end Regex

end CryptoAudit
