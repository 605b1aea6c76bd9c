import CryptoAudit.Proofs.Dataflow.Fixpoint

/-!
# Constant propagation is exact on paths

`Body.Walk` is a path that control may take from the first statement. Along a walk the statements
act one after the other on the facts, beginning with none (`factsAlong`). The facts that constant
propagation finds before a statement are those that hold along every walk to it, and it finds some
if and only if there is a walk (`factsBefore_propagate_iff_walks`).

That the facts hold along every walk follows from the equations that they satisfy in the end, by
induction on the walk (`within_factsAlong`). That no fact is lost is an invariant of the worklist
(`State.Precise`): the facts after a reached statement contain all that hold after every walk to it.
A statement acts on each local by itself: what the local holds afterwards is an operand of what was
known before (`Facts.getElem?_transfer`). So a fact that holds after every walk comes from one that
holds before it.
-/

namespace CryptoAudit

/-- What a local holds after a statement, in terms of what was known before it. -/
def Statement.source : Statement → String → Operand
  | .assign y value, x => if y = x then value else .local x
  | .invoke inv, x => if inv.result = some x then .other else .local x
  | .nop, x => .local x

/-- A statement acts on each local by itself. -/
theorem Facts.getElem?_transfer (facts : Facts) (stmt : Statement) (x : String) :
    (facts.transfer stmt)[x]? = facts.eval (stmt.source x) := by
  cases stmt with
  | assign y value =>
    rw [transfer, getElem?_set, Statement.source]
    split <;> rfl
  | invoke inv =>
    simp only [transfer, Statement.source]
    cases hresult : inv.result with
    | none => rfl
    | some y =>
      simp only [getElem?_set, Option.some.injEq]
      split <;> rfl
  | nop => rfl

/-- Control may go from the first statement through `visited`, in this order, to statement `i`.
Steps to statements that do not exist are not taken. -/
inductive Body.Walk (b : Body) : List Nat → Nat → Prop
  | entry (h : 0 < b.statements.length) : Walk b [] 0
  | step {visited : List Nat} {i j : Nat} (h : Walk b visited i) (hj : j ∈ b.successorsOf i)
      (hlt : j < b.statements.length) : Walk b (visited ++ [i]) j

theorem Body.Walk.lt {b : Body} {visited : List Nat} {i : Nat} (h : b.Walk visited i) :
    i < b.statements.length := by
  cases h <;> assumption

namespace Dataflow

/-- The facts after the statements of a path, beginning with none. -/
def factsAlong (b : Body) (visited : List Nat) : Facts :=
  visited.foldl (fun facts i => transferAt b i facts) ∅

theorem factsAlong_concat (b : Body) (visited : List Nat) (i : Nat) :
    factsAlong b (visited ++ [i]) = transferAt b i (factsAlong b visited) := by
  simp [factsAlong]

/-- The local is bound to the value along every walk to the statement. -/
def HoldsBefore (b : Body) (i : Nat) (x : String) (v : Argument) : Prop :=
  ∀ visited, b.Walk visited i → (factsAlong b visited)[x]? = some v

/-- The local is bound to the value along every walk through the statement. -/
def HoldsAfter (b : Body) (i : Nat) (x : String) (v : Argument) : Prop :=
  ∀ visited, b.Walk visited i → (factsAlong b (visited ++ [i]))[x]? = some v

/-- The statement can be reached, and the facts contain all that hold by `holds`. -/
structure Covers (b : Body) (i : Nat) (holds : String → Argument → Prop) (facts : Facts) :
    Prop where
  reached : ∃ visited, b.Walk visited i
  complete : ∀ x v, holds x v → facts[x]? = some v

/-! ## No fact is lost -/

section
variable {b : Body} {i j : Nat} {x : String} {v : Argument}

theorem HoldsBefore.after (h : HoldsBefore b j x v) (hj : j ∈ b.successorsOf i)
    (hlt : j < b.statements.length) : HoldsAfter b i x v :=
  fun _ hwalk => h _ (hwalk.step hj hlt)

/-- What holds after a statement is a constant of the statement, or holds before it of the local
that the statement copies. So facts that cover what holds before cover what holds after. -/
theorem Covers.transfer {stmt : Statement} {input : Facts} (hi : b.statements[i]? = some stmt)
    (h : Covers b i (HoldsBefore b i) input) :
    Covers b i (HoldsAfter b i) (input.transfer stmt) := by
  refine ⟨h.reached, fun x v hafter => ?_⟩
  have halong : ∀ visited, b.Walk visited i →
      (factsAlong b visited).eval (stmt.source x) = some v := by
    intro visited hwalk
    rw [← Facts.getElem?_transfer, ← transferAt_eq hi, ← factsAlong_concat]
    exact hafter visited hwalk
  obtain ⟨visited, hwalk⟩ := h.reached
  rw [Facts.getElem?_transfer]
  cases hsource : stmt.source x with
  | literal | parameter | other =>
    rw [hsource] at halong
    exact halong visited hwalk
  | «local» y =>
    rw [hsource] at halong
    exact h.complete y v halong

namespace State

/-- What is recorded after a statement covers what holds after every walk through it. -/
def Precise (b : Body) (s : State) : Prop :=
  ∀ i output, s.after[i]?.join = some output → Covers b i (HoldsAfter b i) output

variable {s : State} {rest : List Nat}

theorem precise_initial (b : Body) : (initial b.statements.length).Precise b := by
  intro i output h
  rw [initial, join_replicate_none] at h
  cases h

/-- The input of a statement covers what holds before it: a walk to it comes through one of its
predecessors. -/
theorem Precise.inputAt (h : s.Precise b) (hi : i < b.statements.length) {input : Facts}
    (hin : inputAt b.predecessors s.after i = some input) :
    Covers b i (HoldsBefore b i) input := by
  unfold Dataflow.inputAt at hin
  split at hin
  next hzero =>
    subst hzero
    cases hin
    exact ⟨⟨[], .entry hi⟩, fun x v hbefore => hbefore [] (.entry hi)⟩
  next =>
    have hpart : ∀ f ∈ (b.predecessors[i]?.getD []).filterMap (fun p => s.after[p]?.join),
        ∃ p, i ∈ b.successorsOf p ∧ Covers b p (HoldsAfter b p) f := by
      intro f hf
      obtain ⟨p, hp, hpf⟩ := List.mem_filterMap.1 hf
      exact ⟨p, (b.mem_predecessors.1 hp).2.2, h p f hpf⟩
    refine ⟨?_, fun x v hbefore => (getElem?_joinAll hin).2 fun f hf => ?_⟩
    · obtain ⟨f, hf⟩ := exists_mem_of_joinAll hin
      obtain ⟨p, hp, hcovers⟩ := hpart f hf
      obtain ⟨visited, hwalk⟩ := hcovers.reached
      exact ⟨_, hwalk.step hp hi⟩
    · obtain ⟨p, hp, hcovers⟩ := hpart f hf
      exact hcovers.complete x v (hbefore.after hp hi)

/-- Working on a statement loses no fact that holds along all walks. -/
theorem Precise.visit (hs : s.Consistent b b.predecessors) (h : s.Precise b) :
    (s.visit b b.predecessors i rest).Precise b := by
  unfold State.visit
  split
  next stmt input hi hin =>
    have hlt : i < b.statements.length := (List.getElem?_eq_some_iff.1 hi).1
    dsimp only
    split
    next => exact h
    next =>
      intro j output hj
      rw [getElem?_set_join (by rw [hs.length_after]; exact hlt)] at hj
      split at hj
      next hji =>
        subst hji
        cases hj
        exact (h.inputAt hlt hin).transfer hi
      next => exact h j output hj
  next => exact h

theorem final_precise (b : Body) : (final b).Precise b :=
  (run_preserves (P := fun s => s.Precise b) (fun _ _ _ hs _ h => h.visit hs) _
    (initial_consistent b b.predecessors) (precise_initial b)).1

end State

end

/-! ## The facts hold along every walk -/

/-- A statement to which there is a walk is reached, and its facts hold along the walk. -/
theorem within_factsAlong {b : Body} {visited : List Nat} {i : Nat} (h : b.Walk visited i) :
    ∃ facts, (State.final b).before[i]?.join = some facts ∧
      facts.Within (factsAlong b visited) := by
  induction h with
  | entry hlt =>
    rw [(State.final_settled b hlt).before_eq]
    exact ⟨∅, rfl, .refl _⟩
  | @step visited i j hwalk hj hlt ih =>
    obtain ⟨facts, hbefore, hwithin⟩ := ih
    have hi := State.final_settled b hwalk.lt
    have hafter : (State.final b).after[i]?.join = some (transferAt b i facts) := by
      rw [hi.after_eq, ← hi.before_eq, hbefore]
      rfl
    obtain ⟨input, hin, hinput⟩ :=
      inputAt_of_mem (b.mem_predecessors.2 ⟨hwalk.lt, hlt, hj⟩) hafter
    refine ⟨input, by rw [(State.final_settled b hlt).before_eq, hin], hinput.trans ?_⟩
    rw [factsAlong_concat, transferAt_eq (List.getElem?_eq_getElem hwalk.lt),
      transferAt_eq (List.getElem?_eq_getElem hwalk.lt)]
    exact Facts.transfer_within_transfer hwithin _

/-- The facts before a statement cover what holds before it. -/
theorem covers_factsBefore {b : Body} {i : Nat} {facts : Facts}
    (h : factsBefore (propagate b) i = some facts) : Covers b i (HoldsBefore b i) facts := by
  rw [factsBefore_propagate] at h
  have hi : i < b.statements.length := by
    rw [← (State.final_working b).1.length_before]
    by_contra hge
    rw [List.getElem?_eq_none (Nat.not_lt.1 hge)] at h
    cases h
  rw [(State.final_settled b hi).before_eq] at h
  exact (State.final_precise b).inputAt hi h

/-- Constant propagation reaches a statement if and only if there is a walk to it. The facts that it
then finds are exactly those that hold along every walk to the statement. -/
theorem factsBefore_propagate_iff_walks (b : Body) (i : Nat) :
    ((factsBefore (propagate b) i).isSome ↔ ∃ visited, b.Walk visited i) ∧
    ∀ facts, factsBefore (propagate b) i = some facts → ∀ (x : String) (v : Argument),
      facts[x]? = some v ↔ ∀ visited, b.Walk visited i → (factsAlong b visited)[x]? = some v := by
  refine ⟨⟨fun h => ?_, fun ⟨visited, hwalk⟩ => ?_⟩, fun facts hfacts x v => ⟨fun hx => ?_, ?_⟩⟩
  · obtain ⟨facts, hfacts⟩ := Option.isSome_iff_exists.1 h
    exact (covers_factsBefore hfacts).reached
  · obtain ⟨facts, hfacts, -⟩ := within_factsAlong hwalk
    rw [factsBefore_propagate, hfacts]
    rfl
  · intro visited hwalk
    obtain ⟨facts', hfacts', hwithin⟩ := within_factsAlong hwalk
    rw [factsBefore_propagate, hfacts'] at hfacts
    cases hfacts
    exact hwithin x v hx
  · exact (covers_factsBefore hfacts).complete x v

end Dataflow

end CryptoAudit
