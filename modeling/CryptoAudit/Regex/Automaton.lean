import CryptoAudit.Regex.Shape
import Std.Data.HashMap

/-!
# The size of automata

An expression is searched for by two automata over the bytes of a text, one that reads forwards and
one that reads backwards. Expressions whose automata would take too much memory are refused. Only
the size of the automata is computed here: the number of states, which are numbered in the order in
which they are added, and the memory that states take for more than one transition.

A set of characters beyond ASCII becomes states for the bytes of its members. States with the same
transitions are shared, as far as a table remembers them that has a fixed number of slots.
-/

namespace CryptoAudit

open Text (ByteRange)

/-- An automaton that is being built. -/
structure Automaton where
  /-- The number of states. -/
  states : Nat
  /-- The memory of the states. -/
  bytes : Nat
deriving DecidableEq, Inhabited

namespace Automaton

/-- The largest memory of an automaton. -/
def limit : Nat := 10485760

/-- The automaton is too large. -/
def isTooLarge (d : Automaton) : Bool := limit < d.bytes

/-- Adds a state that takes `extra` bytes for its transitions. -/
def add (d : Automaton) (extra : Nat) : Automaton := ⟨d.states + 1, d.bytes + 32 + extra⟩

/-- Adds states with one transition each. -/
def addChain (d : Automaton) (n : Nat) : Automaton := ⟨d.states + n, d.bytes + 32 * n⟩

/-- Applies `step` up to `n` times, until the automaton is too large. -/
def times (step : Automaton → Automaton) : Nat → Automaton → Automaton
  | 0, d => d
  | n + 1, d => if d.isTooLarge then d else times step n (step d)

/-! ## Sets -/

/-- A transition. -/
structure Arc where
  range : ByteRange
  next : Nat
deriving DecidableEq, Inhabited

/-- The slot of a table for a key. -/
def slot (slots : UInt64) (key : List Nat) : Nat :=
  let hash := key.foldl (fun h n => (h ^^^ n.toUInt64) * 0x100000001b3) 0xcbf29ce484222325
  (hash % slots).toNat

/-- The numbers of an arc. -/
def Arc.key (a : Arc) : List Nat := [a.range.first, a.range.last, a.next]

/-- An automaton with a table of the states that have last been stored in each slot. -/
structure Shared (κ : Type) where
  automaton : Automaton
  table : Std.HashMap Nat (κ × Nat)

/-- The state for a key: the one that the table has for it, or a new one. -/
def Shared.state {κ : Type} [DecidableEq κ] (s : Shared κ) (index : Nat) (key : κ) (extra : Nat) :
    Nat × Shared κ :=
  let new := (s.automaton.states,
    ⟨s.automaton.add extra, s.table.insert index (key, s.automaton.states)⟩)
  match s.table[index]? with
  | some (k, state) => if k = key then (state, s) else new
  | none => new

/-- A state to which transitions are still added: those that lead to a state, the last one first,
and the bytes of the one whose target is still open. -/
structure OpenState where
  arcs : List Arc
  pending : Option ByteRange

/-- Fixes the target of the last transition. -/
def OpenState.close (o : OpenState) (next : Nat) : List Arc :=
  match o.pending with
  | some r => ⟨r, next⟩ :: o.arcs
  | none => o.arcs

/-- Adds the states of a path, the last one first, and gives the number of the first. -/
def freeze (target : Nat) : List OpenState → Shared (List Arc) → Nat × Shared (List Arc)
  | [], s => (target, s)
  | o :: below, s =>
    let (next, s) := freeze target below s
    let arcs := (o.close next).reverse
    s.state (slot 10000 (arcs.flatMap Arc.key)) arcs (8 * arcs.length)

/-- Adds a sequence of byte ranges to a path. What the sequence shares with the path stays open, and
the states of the rest of the path are added. -/
def extend (target : Nat) :
    List OpenState → List ByteRange → Shared (List Arc) → List OpenState × Shared (List Arc)
  | o :: below, r :: rs, s =>
    if o.pending == some r then
      let (below, s) := extend target below rs s
      (o :: below, s)
    else
      let (next, s) := freeze target below s
      (⟨o.close next, some r⟩ :: rs.map fun r => ⟨[], some r⟩, s)
  | path, _, s => (path, s)

/-- Adds a set to an automaton that reads forwards: sequences with a common end share states. -/
def addForwards (d : Automaton) (sequences : List (List ByteRange)) : Automaton :=
  let target := d.states
  let (path, s) := sequences.foldl (fun (path, s) rs => extend target path rs s)
    ([⟨[], none⟩], ⟨d.add 0, ∅⟩)
  (freeze target path s).2.automaton

/-- Adds the states for the bytes of a sequence, each of which leads to the one before. -/
def addBackSequence (s : Shared Arc) (target : Nat) (rs : List ByteRange) : Shared Arc :=
  let (_, s) := rs.foldl
    (fun (next, s) r =>
      s.state (slot 1000 [next, r.first, r.last]) (⟨r, next⟩ : Arc) 0)
    (target, s)
  { s with automaton := { s.automaton with bytes := s.automaton.bytes + 4 } }

/-- Adds a set to an automaton that reads backwards: sequences with a common start share states. -/
def addBackwards (d : Automaton) (sequences : List (List ByteRange)) : Automaton :=
  let target := d.states + 1
  let start : Shared Arc := ⟨(d.add 0).add 0, ∅⟩
  (sequences.foldl (fun s rs => addBackSequence s target rs) start).automaton

/-- Adds a set. -/
def addSet (back : Bool) (s : CodeSet) (d : Automaton) : Automaton :=
  if s.isAscii then (d.add 0).add (8 * s.ranges.length)
  else if back then d.addBackwards s.sequences
  else d.addForwards s.sequences

/-! ## Alternatives that are all literals -/

/-- The words between the empty ones. An empty word that stands first or after some word that is not
empty starts a new list; `started` tells whether there has been an empty word, and `seen` whether
there has been another. -/
def splitWords (started seen : Bool) (rev : List (List Nat)) :
    List (List Nat) → List (List (List Nat))
  | [] => [rev.reverse]
  | [] :: words =>
    if started && !seen then splitWords true false rev words
    else rev.reverse :: splitWords true seen [] words
  | (b :: bs) :: words => splitWords started true ((b :: bs) :: rev) words

/-- What follows the first byte of the words, for each first byte. -/
def tailsByFirst (words : List (List Nat)) : List (List (List Nat)) :=
  (words.filterMap List.head?).eraseDups.map fun b =>
    (words.filter fun w => w.head? == some b).map List.tail

/-- Adds the states after a common start of words, which are at most `depth` bytes long. -/
def addWords : Nat → List (List Nat) → Automaton → Automaton
  | 0, _, d => d
  | depth + 1, words, d =>
    let chunks := (splitWords false false [] words).map tailsByFirst
    let d := chunks.foldl (fun d chunk =>
      let d := chunk.foldl
        (fun d tails => if tails.all List.isEmpty then d else addWords depth tails d) d
      match chunk with
      | [] => d
      | [_] => d.add 0
      | _ => d.add (8 * chunk.length)) d
    let full := (chunks.filter fun chunk => !chunk.isEmpty).length
    d.add (4 * (full + (chunks.length - 1)))

/-- Adds alternatives that are all words. -/
def addAllWords (words : List (List Nat)) (d : Automaton) : Automaton :=
  addWords (words.foldl (fun n w => max n w.length) 0 + 1) words (d.add 0)

/-! ## Expressions -/

/-- The bytes of a literal. -/
def word? : Shape → Option (List Nat)
  | .literal codes => some (codes.flatMap Text.utf8)
  | _ => none

/-- Adds a repetition of what `step` adds. `consumes` tells whether each repetition takes up a
character. -/
def addRepetition (step : Automaton → Automaton) (consumes : Bool) (min : Nat) (max : Option Nat)
    (d : Automaton) : Automaton :=
  match min, max with
  | 0, some 1 => (step (d.add 8)).add 0
  | 0, none => if consumes then step (d.add 8) else (((step d).add 8).add 8).add 0
  | n, none => (d.times step n).add 8
  | n, some m =>
    let d := if n = 0 then d.add 0 else d.times step n
    if n = m then d else (d.add 0).times (fun d => step (d.add 8)) (m - n)

mutual

/-- Adds an expression to an automaton that reads forwards or back. -/
def addShape (back : Bool) : Shape → Automaton → Automaton
  | .empty, d | .look _, d => d.add 0
  | .literal codes, d => d.addChain (codes.flatMap Text.utf8).length
  | .set s, d => d.addSet back s
  | .repeated s min max _, d =>
    d.addRepetition (addShape back s) (s.consumes? == some true) min max
  | .capture s, d => if back then addShape back s d else (addShape back s (d.add 0)).add 0
  | .sequence ss, d => if back then addBack ss d else addInOrder ss d
  | .alternation ss, d =>
    match ss.mapM word? with
    | some words => d.addAllWords (if back then words.map List.reverse else words)
    | none => addBranches back ss.length 1 ss d

/-- Adds expressions in sequence. -/
def addInOrder : List Shape → Automaton → Automaton
  | [], d => d
  | s :: ss, d => addInOrder ss (addShape false s d)

/-- Adds expressions in sequence, the last one first. -/
def addBack : List Shape → Automaton → Automaton
  | [], d => d
  | s :: ss, d => addShape true s (addBack ss d)

/-- Adds alternatives, of which there are `count`, from the one with this number on. Two states that
join them come after the second. -/
def addBranches (back : Bool) (count number : Nat) : List Shape → Automaton → Automaton
  | [], d => d
  | s :: ss, d =>
    let d := addShape back s d
    let d := if number = 2 then (d.add (4 * count)).add 0 else d
    addBranches back count (number + 1) ss d

end

/-- The states before an expression: a loop over all bytes, unless there is only one place where a
match can start. -/
def addStart (isAnchored : Bool) (d : Automaton) : Automaton :=
  if isAnchored then d.add 0 else ((d.add 8).add 0).add 8

/-- The automaton that reads forwards. -/
def forwards (s : Shape) : Automaton :=
  ((addShape false s ((addStart (s.startsAt .textStart) ⟨0, 0⟩).add 0)).add 0).add 0

/-- The automaton that reads backwards. -/
def backwards (s : Shape) : Automaton :=
  (addShape true s (addStart (s.endsAt .textEnd) ⟨0, 0⟩)).add 0

/-- Both automata of an expression are small enough. -/
def fits (s : Shape) : Bool := !(forwards s).isTooLarge && !(backwards s).isTooLarge

end Automaton

end CryptoAudit
