import CryptoAudit.Yaml.Token
import CryptoAudit.Yaml.Value

/-!
# Reading YAML

A document is read from its words. Where a value is missing, nothing is written there. The number of
words bounds the recursion.
-/

namespace CryptoAudit.Yaml

/-- A value begins here. -/
def isContent (inLines flush : Bool) : List Token → Bool
  | .scalar .. :: _ | .beginList :: _ | .beginMapping :: _ => true
  | .openList :: _ | .openMapping :: _ => inLines
  | .entry :: _ => flush
  | _ => false

/-- The words after which no value of a collection laid out in lines follows. -/
def endsValue : List Token → Bool
  | .key :: _ | .value :: _ | .close :: _ => true
  | _ => false

/-- What stands before a value. -/
structure Properties where
  anchor : Option Nat
  tag : Option String

/-- Reads an anchor and a tag, in either order. -/
def properties : List Token → Properties × List Token
  | .anchor n :: .tag t :: rest | .tag t :: .anchor n :: rest => (⟨some n, some t⟩, rest)
  | .anchor n :: rest => (⟨some n, none⟩, rest)
  | .tag t :: rest => (⟨none, some t⟩, rest)
  | rest => (⟨none, none⟩, rest)

/-- A value with its anchor. -/
def Properties.mark (p : Properties) (v : Yaml) : Yaml :=
  match p.anchor with
  | some n => .anchored n v
  | none => v

mutual

/-- Reads a value. With `inLines`, it may be a collection laid out in lines; with `flush`, also a
list whose entries stand at the margin of the mapping around it. Where only an anchor or a tag is
written stands an empty scalar. -/
def node? : Nat → (inLines flush : Bool) → List Token → Option (Yaml × List Token)
  | 0, _, _, _ => none
  | fuel + 1, inLines, flush, ts =>
    match ts with
    | .reference n :: rest => some (.reference n, rest)
    | _ =>
      let (p, rest) := properties ts
      if isContent inLines flush rest then
        (content? fuel inLines flush p.tag rest).map fun (v, rest) => (p.mark v, rest)
      else if p.anchor.isSome || p.tag.isSome then
        some (p.mark (.scalar .plain p.tag ""), rest)
      else none

/-- Reads a value without what stands before it. -/
def content? : Nat → (inLines flush : Bool) → Option String → List Token →
    Option (Yaml × List Token)
  | 0, _, _, _, _ => none
  | fuel + 1, inLines, flush, tag, ts =>
    match ts with
    | .scalar style s :: rest =>
      some (.scalar style (if tag == some "!" then none else tag) s, rest)
    | .beginList :: rest => (flowItems? fuel true rest).map fun (vs, rest) => (.list vs, rest)
    | .beginMapping :: rest =>
      (flowMembers? fuel true rest).map fun (ms, rest) => (.mapping ms, rest)
    | .openList :: rest =>
      if inLines then (items? fuel rest).map fun (vs, rest) => (.list vs, rest) else none
    | .openMapping :: rest =>
      if inLines then (members? fuel rest).map fun (ms, rest) => (.mapping ms, rest) else none
    | .entry :: _ =>
      if flush then (flushItems? fuel ts).map fun (vs, rest) => (.list vs, rest) else none
    | _ => none

/-- Reads the entries of a list laid out in lines, to its end. -/
def items? : Nat → List Token → Option (List Yaml × List Token)
  | 0, _ => none
  | fuel + 1, ts =>
    match ts with
    | .close :: rest => some ([], rest)
    | .entry :: rest => do
      let (v, rest) ←
        match rest with
        | .entry :: _ | .close :: _ => some (nothing, rest)
        | _ => node? fuel true false rest
      let (vs, rest) ← items? fuel rest
      return (v :: vs, rest)
    | _ => none

/-- Reads the entries of a list at the margin of the mapping around it. -/
def flushItems? : Nat → List Token → Option (List Yaml × List Token)
  | 0, _ => none
  | fuel + 1, ts =>
    match ts with
    | .entry :: rest => do
      let (v, rest) ←
        match rest with
        | .entry :: _ | .key :: _ | .value :: _ | .close :: _ => some (nothing, rest)
        | _ => node? fuel true false rest
      let (vs, rest) ← flushItems? fuel rest
      return (v :: vs, rest)
    | _ => some ([], ts)

/-- Reads the members of a mapping laid out in lines, to its end. -/
def members? : Nat → List Token → Option (List (Yaml × Yaml) × List Token)
  | 0, _ => none
  | fuel + 1, ts =>
    match ts with
    | .close :: rest => some ([], rest)
    | .key :: rest => do
      let (k, rest) ← if endsValue rest then some (nothing, rest) else node? fuel true true rest
      let (v, rest) ←
        match rest with
        | .value :: rest =>
          if endsValue rest then some (nothing, rest) else node? fuel true true rest
        | _ => some (nothing, rest)
      let (ms, rest) ← members? fuel rest
      return ((k, v) :: ms, rest)
    | _ => none

/-- Reads the entries of a list in brackets, to its end. An entry may be a mapping with a single
member. -/
def flowItems? : Nat → (first : Bool) → List Token → Option (List Yaml × List Token)
  | 0, _, _ => none
  | fuel + 1, first, ts =>
    match ts with
    | .endList :: rest => some ([], rest)
    | _ => do
      let ts ← if first then some ts else match ts with
        | .comma :: rest => some rest
        | _ => none
      match ts with
      | .endList :: rest => return ([], rest)
      | .key :: rest =>
        let (k, rest) ←
          match rest with
          | .value :: rest | .comma :: rest | .endList :: rest => some (nothing, rest)
          | _ => node? fuel false false rest
        let (v, rest) ←
          match rest with
          | .value :: rest =>
            match rest with
            | .comma :: _ | .endList :: _ => some (nothing, rest)
            | _ => node? fuel false false rest
          | _ => some (nothing, rest)
        let (vs, rest) ← flowItems? fuel false rest
        return (.mapping [(k, v)] :: vs, rest)
      | _ =>
        let (v, rest) ← node? fuel false false ts
        let (vs, rest) ← flowItems? fuel false rest
        return (v :: vs, rest)

/-- Reads the members of a mapping in braces, to its end. -/
def flowMembers? : Nat → (first : Bool) → List Token → Option (List (Yaml × Yaml) × List Token)
  | 0, _, _ => none
  | fuel + 1, first, ts =>
    match ts with
    | .endMapping :: rest => some ([], rest)
    | _ => do
      let ts ← if first then some ts else match ts with
        | .comma :: rest => some rest
        | _ => none
      match ts with
      | .endMapping :: rest => return ([], rest)
      | .key :: rest =>
        let (k, rest) ←
          match rest with
          | .value :: _ | .comma :: _ | .endMapping :: _ => some (nothing, rest)
          | _ => node? fuel false false rest
        let (v, rest) ←
          match rest with
          | .value :: rest =>
            match rest with
            | .comma :: _ | .endMapping :: _ => some (nothing, rest)
            | _ => node? fuel false false rest
          | _ => some (nothing, rest)
        let (ms, rest) ← flowMembers? fuel false rest
        return ((k, v) :: ms, rest)
      | _ =>
        let (k, rest) ← node? fuel false false ts
        let (ms, rest) ← flowMembers? fuel false rest
        return ((k, nothing) :: ms, rest)

end

/-- Reads the value of a document. -/
def root? (ts : List Token) : Option (Yaml × List Token) :=
  match ts with
  | [] | .directive :: _ | .documentStart :: _ | .documentEnd :: _ => some (nothing, ts)
  | _ => node? (3 * ts.length + 3) true false ts

/-- The only document in a text; a text without any holds nothing. Directives must be followed by
the mark of a document's start. -/
def parse? (s : String) : Option Node := do
  let ts ← tokens? s
  let (v, rest) ← match ts.dropWhile (· == .directive) with
    | .documentStart :: rest => root? rest
    | rest =>
      if rest.length < ts.length || rest.head? == some .documentEnd then none else root? rest
  if rest.all (· == .documentEnd) then return .ofYaml v else none

end CryptoAudit.Yaml
