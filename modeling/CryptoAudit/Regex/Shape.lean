import CryptoAudit.Regex.CodeSet

/-!
# Simplified expressions

An expression in the form in which the size of its automaton is measured: letters in sequence are
one literal, sets that have one member are literals, alternatives that are letters or sets are one
set, and what alternatives have in common at their start is written once.
-/

namespace CryptoAudit

/-- A simplified expression. -/
inductive Shape where
  | empty
  | literal (codes : List Nat)
  | set (s : CodeSet)
  | look (a : Assertion)
  | repeated (s : Shape) (min : Nat) (max : Option Nat) (greedy : Bool)
  | capture (s : Shape)
  | sequence (parts : List Shape)
  | alternation (branches : List Shape)
deriving Inhabited

namespace Shape

/-! ## Properties -/

mutual

/-- The number of parts of the expression. -/
def size : Shape → Nat
  | .empty | .literal _ | .set _ | .look _ => 1
  | .repeated s _ _ _ | .capture s => s.size + 1
  | .sequence ss | .alternation ss => sizeOfAll ss + 1

/-- The number of parts of several expressions. -/
def sizeOfAll : List Shape → Nat
  | [] => 0
  | s :: ss => s.size + sizeOfAll ss

end

mutual

/-- The expressions are the same. Each group that captures is one of its own. -/
def same : Shape → Shape → Bool
  | .empty, .empty => true
  | .literal a, .literal b => a == b
  | .set a, .set b => a == b
  | .look a, .look b => a == b
  | .repeated s min max greedy, .repeated t min' max' greedy' =>
    min == min' && max == max' && greedy == greedy' && s.same t
  | .sequence a, .sequence b => sameAll a b
  | .alternation a, .alternation b => sameAll a b
  | _, _ => false

/-- The expressions are, one by one, the same. -/
def sameAll : List Shape → List Shape → Bool
  | [], [] => true
  | s :: ss, t :: ts => s.same t && sameAll ss ts
  | _, _ => false

end

mutual

/-- The expression can match nothing but the empty text. -/
def isVoid : Shape → Bool
  | .empty | .look _ => true
  | .literal _ | .set _ => false
  | .repeated s _ max _ => max.isSome && s.isVoid
  | .capture s => s.isVoid
  | .sequence ss | .alternation ss => areVoid ss

/-- All expressions can match nothing but the empty text. -/
def areVoid : List Shape → Bool
  | [] => true
  | s :: ss => s.isVoid && areVoid ss

end

mutual

/-- Whether each match takes up a character, unless there is a part that cannot match at all. -/
def consumes? : Shape → Option Bool
  | .empty | .look _ => some false
  | .literal _ => some true
  | .set s => if s.ranges.isEmpty then none else some true
  | .repeated s min _ _ => s.consumes?.map (0 < min && ·)
  | .capture s => s.consumes?
  | .sequence ss => anyConsumes? ss
  | .alternation ss => allConsume? ss

/-- Whether each match of one of the expressions takes up a character. -/
def anyConsumes? : List Shape → Option Bool
  | [] => some false
  | s :: ss => do return (← s.consumes?) || (← anyConsumes? ss)

/-- Whether each match of all expressions takes up a character. -/
def allConsume? : List Shape → Option Bool
  | [] => some true
  | s :: ss => do return (← s.consumes?) && (← allConsume? ss)

end

mutual

/-- Each match starts at a position with this condition. -/
def startsAt (a : Assertion) : Shape → Bool
  | .look b => a == b
  | .repeated s min _ _ => 0 < min && s.startsAt a
  | .capture s => s.startsAt a
  | .sequence ss => firstStartsAt a ss
  | .alternation ss => allStartAt a ss
  | _ => false

/-- The condition holds before all parts in sequence that take up characters. -/
def firstStartsAt (a : Assertion) : List Shape → Bool
  | [] => false
  | s :: ss => s.startsAt a || (s.isVoid && firstStartsAt a ss)

/-- Each match of each of the expressions starts at a position with this condition. -/
def allStartAt (a : Assertion) : List Shape → Bool
  | [] => true
  | s :: ss => s.startsAt a && allStartAt a ss

end

mutual

/-- Each match ends at a position with this condition. -/
def endsAt (a : Assertion) : Shape → Bool
  | .look b => a == b
  | .repeated s min _ _ => 0 < min && s.endsAt a
  | .capture s => s.endsAt a
  | .sequence ss => lastEndsAt a ss
  | .alternation ss => allEndAt a ss
  | _ => false

/-- The condition holds after all parts in sequence that take up characters. -/
def lastEndsAt (a : Assertion) : List Shape → Bool
  | [] => false
  | s :: ss => lastEndsAt a ss || (areVoid ss && s.endsAt a)

/-- Each match of each of the expressions ends at a position with this condition. -/
def allEndAt (a : Assertion) : List Shape → Bool
  | [] => true
  | s :: ss => s.endsAt a && allEndAt a ss

end

/-! ## Construction -/

/-- A set, which is a literal if it has one member. -/
def ofSet (s : CodeSet) : Shape :=
  match s.single? with
  | some n => .literal [n]
  | none => .set s

/-- A repetition. What can match nothing but the empty text need not be repeated. -/
def ofRepetition (s : Shape) (min : Nat) (max : Option Nat) (greedy : Bool) : Shape :=
  let (min, max) :=
    if s.isVoid then (Nat.min min 1, some (Nat.min (max.getD 1) 1)) else (min, max)
  if max == some 0 then .empty
  else if min == 1 && max == some 1 then s
  else .repeated s min max greedy

/-- The parts of a sequence. -/
def parts : Shape → List Shape
  | .empty => []
  | .sequence ss => ss
  | s => [s]

/-- Joins literals that stand side by side. -/
def joinLiterals : List Shape → List Shape
  | [] => []
  | .literal a :: rest =>
    match joinLiterals rest with
    | .literal b :: rest => .literal (a ++ b) :: rest
    | rest => .literal a :: rest
  | s :: rest => s :: joinLiterals rest

/-- Expressions in sequence. -/
def ofParts (ss : List Shape) : Shape :=
  match joinLiterals (ss.flatMap parts) with
  | [] => .empty
  | [s] => s
  | ss => .sequence ss

/-- The branches of an alternation. -/
def branches : Shape → List Shape
  | .alternation ss => ss
  | s => [s]

/-- The code point of a literal that is one letter. -/
def letter? : Shape → Option Nat
  | .literal [n] => some n
  | _ => none

/-- The set of a set. -/
def set? : Shape → Option CodeSet
  | .set s => some s
  | _ => none

/-- The parts of an expression that is a sequence. -/
def sequenceParts : Shape → List Shape
  | .sequence ss => ss
  | _ => []

/-- The parts that two lists have in common at their start. -/
def commonParts : List Shape → List Shape → List Shape
  | s :: ss, t :: ts => if s.same t then s :: commonParts ss ts else []
  | _, _ => []

/-- The parts that all sequences have in common at their start. -/
def commonStart : List Shape → List Shape
  | [] => []
  | s :: ss => ss.foldl (fun lead t => commonParts lead t.sequenceParts) s.sequenceParts

/-- One of several expressions, with a bound on how often a common start is split off. -/
def choice : Nat → List Shape → Shape
  | 0, ss => .alternation ss
  | fuel + 1, ss =>
    match ss.flatMap branches with
    | [] => .set ⟨[]⟩
    | [s] => s
    | ss =>
      match ss.mapM letter?, ss.mapM set?, commonStart ss with
      | some ns, _, _ => ofSet (.ofRanges (ns.map fun n => (n, n)))
      | none, some sets, _ => ofSet (.ofRanges (sets.flatMap CodeSet.ranges))
      | none, none, [] => .alternation ss
      | none, none, lead =>
        let rests := ss.map fun s => ofParts (s.sequenceParts.drop lead.length)
        ofParts (lead ++ [choice fuel rests])

/-- One of several expressions. -/
def ofBranches (ss : List Shape) : Shape := choice (sizeOfAll ss + 1) ss

/-- The simplified branches of an expression, which is one branch unless it is an alternative. -/
def branchesOf : Regex → List Shape
  | .empty => [.empty]
  | .char c => [.literal [c.toNat]]
  | .folded c => [ofSet (.ofRanges ((Text.caseVariants c).map fun d => (d.toNat, d.toNat)))]
  | .set s => [ofSet (.ofClass s)]
  | .assert a => [.look a]
  | .seq a b => [ofParts [ofBranches (branchesOf a), ofBranches (branchesOf b)]]
  | .alt a b => ofBranches (branchesOf a) :: branchesOf b
  | .repeated a min max greedy => [ofRepetition (ofBranches (branchesOf a)) min max greedy]
  | .group true a => [.capture (ofBranches (branchesOf a))]
  | .group false a => [ofBranches (branchesOf a)]

/-- The simplified form of an expression. -/
def ofRegex (r : Regex) : Shape := ofBranches (branchesOf r)

end Shape

end CryptoAudit
