/-!
# Method bodies

A body is a list of statements, and for each statement the statements that may run next. Without
explicit successors control goes straight on. Successor lists come from outside: there may be too
few of them, and they may name statements that do not exist. `Body.WellFormed` says that they are
as many as the statements and name existing ones only.
-/

namespace CryptoAudit

/-- What an expression inside a body denotes. -/
inductive Operand where
  | literal (s : String)
  | parameter (i : Nat)
  | «local» (x : String)
  | other
deriving DecidableEq, Inhabited

/-- A call inside a body. -/
structure Invocation where
  declaringType : String
  method : String
  args : List Operand
  /-- The local that receives the result. -/
  result : Option String
  line : Option Nat
  /-- Qualified names of the methods that may be called, if they are known. -/
  callees : Option (List String)
deriving DecidableEq, Inhabited

/-- The name of the invoked method with its declaring type. -/
def Invocation.target (inv : Invocation) : String :=
  inv.declaringType ++ "." ++ inv.method

/-- A statement of a body. -/
inductive Statement where
  | assign (target : String) (value : Operand)
  | invoke (inv : Invocation)
  /-- A statement that changes no local. -/
  | nop
deriving DecidableEq, Inhabited

/-- A method body. -/
structure Body where
  statements : List Statement
  /-- For each statement, the statements that may run next. -/
  successors : Option (List (List Nat))
deriving DecidableEq, Inhabited

namespace Body

/-- The statements that may run after statement `i`. -/
def successorsOf (b : Body) (i : Nat) : List Nat :=
  match b.successors with
  | some lists => lists[i]?.getD []
  | none => if i + 1 < b.statements.length then [i + 1] else []

/-- The steps that control may take, by statement and then in the order of its successors. -/
def steps (b : Body) : List (Nat × Nat) :=
  (List.range b.statements.length).flatMap fun i => (b.successorsOf i).map (i, ·)

/-- For each statement the statements after which it may run. Steps to statements that do not
exist are left out. -/
def predecessors (b : Body) : List (List Nat) :=
  b.steps.foldl (fun lists step => lists.modify step.2 (· ++ [step.1]))
    (List.replicate b.statements.length [])

/-- The calls of a body with their positions, in order. -/
def invocations (b : Body) : List (Nat × Invocation) :=
  b.statements.zipIdx.filterMap fun
    | (.invoke inv, i) => some (i, inv)
    | _ => none

/-- A way in which the successors of a body are wrong. -/
inductive Defect where
  /-- There are `lists` successor lists for another number of statements. -/
  | listCount (lists statements : Nat)
  /-- The successor does not exist. -/
  | outOfRange (successor : Nat)
deriving DecidableEq

/-- What is wrong with the successors: their number, else the first that does not exist. -/
def defect? (b : Body) : Option Defect :=
  b.successors.bind fun lists =>
    if lists.length ≠ b.statements.length then
      some (.listCount lists.length b.statements.length)
    else
      (lists.flatten.find? (b.statements.length ≤ ·)).map .outOfRange

/-- The successors are as many as the statements and name existing ones. -/
def WellFormed (b : Body) : Prop :=
  ∀ lists, b.successors = some lists →
    lists.length = b.statements.length ∧ ∀ s ∈ lists.flatten, s < b.statements.length

end Body

end CryptoAudit
