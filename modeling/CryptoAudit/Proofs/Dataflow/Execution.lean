import Mathlib
import CryptoAudit.Proofs.Dataflow.Paths

/-!
# Concrete executions of a body

An activation of a method has values for its parameters and for its locals. It begins at the first
statement with any locals and follows the successors of each statement (`Reaches`). An assignment
stores the value of its operand. What an `other` operand evaluates to, and what a call returns, may
be any value. Values may be of any type; `text` says which of them a literal denotes.

Constant propagation is sound for these executions (`lowerOperand_sound`): wherever an activation
stands, an operand that is lowered to a literal has the literal's value, and one that is lowered to
a parameter has the value that the parameter had when the activation began. An execution follows a
walk through the body, and the facts along the walk describe its locals (`Reaches.walk`).
-/

namespace CryptoAudit.Execution

variable {V : Type} (text : String → V) (params : Nat → V)

/-- An operand may evaluate to a value. -/
inductive Evaluates (locals : String → V) : Operand → V → Prop
  | literal (s : String) : Evaluates locals (.literal s) (text s)
  | parameter (i : Nat) : Evaluates locals (.parameter i) (params i)
  | «local» (x : String) : Evaluates locals (.local x) (locals x)
  | other (v : V) : Evaluates locals .other v

/-- The locals after `x` has received a value. -/
def store (locals : String → V) (x : String) (v : V) : String → V :=
  fun y => if x = y then v else locals y

/-- A statement may turn locals into others. -/
inductive Executes : Statement → (String → V) → (String → V) → Prop
  | assign {locals : String → V} {value : Operand} {v : V} (x : String)
      (h : Evaluates text params locals value v) :
      Executes (.assign x value) locals (store locals x v)
  | result {inv : Invocation} {x : String} (h : inv.result = some x) (locals : String → V) (v : V) :
      Executes (.invoke inv) locals (store locals x v)
  | noResult {inv : Invocation} (h : inv.result = none) (locals : String → V) :
      Executes (.invoke inv) locals locals
  | nop (locals : String → V) : Executes .nop locals locals

/-- An activation of a body may stand before a statement with these locals. -/
inductive Reaches (b : Body) : Nat → (String → V) → Prop
  | start (locals : String → V) : Reaches b 0 locals
  | step {i j : Nat} {stmt : Statement} {locals locals' : String → V} (h : Reaches b i locals)
      (hi : b.statements[i]? = some stmt) (hexec : Executes text params stmt locals locals')
      (hj : j ∈ b.successorsOf i) : Reaches b j locals'

/-- What is known of an argument is true of a value. -/
def Denotes : Argument → V → Prop
  | .literal s, v => v = text s
  | .parameter i, v => v = params i
  | .unsupported, _ => True

/-- The facts are true of the locals. -/
def Describes (facts : Facts) (locals : String → V) : Prop :=
  ∀ (x : String) (a : Argument), facts[x]? = some a → Denotes text params a (locals x)

section
variable {text params} {facts : Facts} {locals locals' : String → V} {stmt : Statement}
  {op : Operand} {v : V} {b : Body} {i : Nat}

/-- What facts tell about an operand is true of its value, if they are true of the locals. -/
theorem Describes.eval (h : Describes text params facts locals) {a : Argument}
    (ha : facts.eval op = some a) (hv : Evaluates text params locals op v) :
    Denotes text params a v := by
  cases hv with
  | literal | parameter => cases ha; rfl
  | «local» x => exact h x a ha
  | other => cases ha

theorem Describes.mono {facts' : Facts} (hwithin : facts'.Within facts)
    (h : Describes text params facts locals) : Describes text params facts' locals :=
  fun x a ha => h x a (hwithin x a ha)

/-- After a statement each local holds what its source evaluated to before. -/
theorem Executes.source (h : Executes text params stmt locals locals') (x : String) :
    Evaluates text params locals (stmt.source x) (locals' x) := by
  cases h with
  | assign y hv =>
    simp only [Statement.source, store]
    split
    · exact hv
    · exact .local x
  | @result inv y hresult _ w =>
    simp only [Statement.source, store, hresult, Option.some.injEq]
    split
    · exact .other w
    · exact .local x
  | noResult hresult =>
    simp only [Statement.source, hresult, reduceCtorEq, if_false]
    exact .local x
  | nop => exact .local x

/-- The effect of a statement on facts is true of the locals after it. -/
theorem Describes.transfer (h : Describes text params facts locals)
    (hexec : Executes text params stmt locals locals') :
    Describes text params (facts.transfer stmt) locals' := by
  intro x a ha
  rw [Facts.getElem?_transfer] at ha
  exact h.eval ha (hexec.source x)

/-- An activation has come to where it stands by a walk, and the facts along the walk are true of
its locals. -/
theorem Reaches.walk (h : Reaches text params b i locals) (hi : i < b.statements.length) :
    ∃ visited, b.Walk visited i ∧
      Describes text params (Dataflow.factsAlong b visited) locals := by
  induction h with
  | start => exact ⟨[], .entry hi, fun x a ha => by simp [Dataflow.factsAlong] at ha⟩
  | step _ hstmt hexec hj ih =>
    obtain ⟨visited, hwalk, hdescribes⟩ := ih (List.getElem?_eq_some_iff.1 hstmt).1
    refine ⟨_, hwalk.step hj hi, ?_⟩
    rw [Dataflow.factsAlong_concat, Dataflow.transferAt_eq hstmt]
    exact hdescribes.transfer hexec

/-- The facts that constant propagation finds are true of every activation that stands there. -/
theorem Reaches.describes (h : Reaches text params b i locals)
    (hfacts : Dataflow.factsBefore (Dataflow.propagate b) i = some facts) :
    Describes text params facts locals := by
  obtain ⟨_, hreached⟩ := (Dataflow.covers_factsBefore hfacts).reached
  obtain ⟨visited, hwalk, hdescribes⟩ := h.walk hreached.lt
  obtain ⟨facts', hfacts', hwithin⟩ := Dataflow.within_factsAlong hwalk
  rw [Dataflow.factsBefore_propagate, hfacts'] at hfacts
  cases hfacts
  exact hdescribes.mono hwithin

/-- What an operand is lowered to is true of its value wherever an activation stands. -/
theorem lowerOperand_sound (h : Reaches text params b i locals)
    (hv : Evaluates text params locals op v) :
    Denotes text params (Dataflow.lowerOperand (Dataflow.propagate b) i op) v := by
  cases hv with
  | literal | parameter => rfl
  | other => trivial
  | «local» x =>
    simp only [Dataflow.lowerOperand]
    cases hfacts : Dataflow.factsBefore (Dataflow.propagate b) i with
    | none => trivial
    | some facts =>
      cases hx : facts[x]? with
      | none => simp [hx, Denotes]
      | some a =>
        simp only [Option.bind_some, hx, Option.getD_some]
        exact h.describes hfacts x a hx

end

/-- Wherever an activation stands, an operand that is lowered to a literal has the literal's value,
and one that is lowered to a parameter has the value with which the activation began. -/
theorem Reaches.lowerOperand_eq {V : Type} {text : String → V} {params : Nat → V} {b : Body}
    {i : Nat} {locals : String → V} (h : Reaches text params b i locals) {op : Operand} {v : V}
    (hv : Evaluates text params locals op v) :
    (∀ s, Dataflow.lowerOperand (Dataflow.propagate b) i op = .literal s → v = text s) ∧
      ∀ k, Dataflow.lowerOperand (Dataflow.propagate b) i op = .parameter k → v = params k := by
  have hdenotes := lowerOperand_sound h hv
  refine ⟨fun s hs => ?_, fun k hk => ?_⟩
  · rw [hs] at hdenotes
    exact hdenotes
  · rw [hk] at hdenotes
    exact hdenotes

/-- A loop back to the first statement, with a call whose result replaces one of its arguments and
an assignment of a local to itself. -/
def rewrapBody : Body where
  statements := [
    .assign "mode" (.literal "AES"),
    .assign "key" (.parameter 0),
    .invoke ⟨"Keys", "wrap", [.local "mode", .local "key"], some "key", none, none⟩,
    .assign "mode" (.local "mode")]
  successors := some [[1], [2], [3], [0]]

/-- Before the second call of `wrap`, its arguments are known although its first result has been
stored over one of them; after the call the result is not known. -/
theorem Reaches.lowerOperand_eq_second_wrap :
    ∃ locals, Reaches id (fun _ => "secret") rewrapBody 2 locals ∧
      Dataflow.lowerOperand (Dataflow.propagate rewrapBody) 2 (.local "mode") = .literal "AES" ∧
      Dataflow.lowerOperand (Dataflow.propagate rewrapBody) 2 (.local "key") = .parameter 0 ∧
      Dataflow.lowerOperand (Dataflow.propagate rewrapBody) 3 (.local "key") = .unsupported ∧
      locals "mode" = "AES" ∧ locals "key" = "secret" := by
  have hmode :
      Dataflow.lowerOperand (Dataflow.propagate rewrapBody) 2 (.local "mode") = .literal "AES" := by
    cbv
  have hkey :
      Dataflow.lowerOperand (Dataflow.propagate rewrapBody) 2 (.local "key") = .parameter 0 := by
    cbv
  have hround : ∀ {l : String → String}, Reaches id (fun _ => "secret") rewrapBody 0 l →
      ∃ l', Reaches id (fun _ => "secret") rewrapBody 2 l' := fun h =>
    ⟨_, .step (.step h rfl (.assign "mode" (.literal "AES")) (List.mem_singleton_self 1)) rfl
      (.assign "key" (.parameter 0)) (List.mem_singleton_self 2)⟩
  obtain ⟨_, hfirst⟩ := hround (.start fun _ => "")
  have hback := Reaches.step (hfirst.step rfl (.result rfl _ "wrapped") (List.mem_singleton_self 3))
    rfl (.assign "mode" (.local "mode")) (List.mem_singleton_self 0)
  obtain ⟨locals, hsecond⟩ := hround hback
  exact ⟨locals, hsecond, hmode, hkey, by cbv,
    (hsecond.lowerOperand_eq (.local "mode")).1 "AES" hmode,
    (hsecond.lowerOperand_eq (.local "key")).2 0 hkey⟩

end CryptoAudit.Execution
