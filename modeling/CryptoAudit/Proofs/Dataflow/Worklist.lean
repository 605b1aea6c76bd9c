import Mathlib
import CryptoAudit.Proofs.Dataflow.Paths

/-!
# The worklist ends, and what it ends with

`propagate` works on the waiting statements until none is left (`State.Visits`). On every body this
takes a bounded number of visits, whatever the successors. A statement is made to wait only after
what is known after one of its predecessors has changed, and that changes only by becoming known or
by losing a binding. Bindings are of locals to which the body assigns (`State.Named`). So each step
that control may take can be charged for the changes of its origin that are still possible, and the
charges together with the number of waiting statements become smaller by every visit
(`State.potential_visit_lt`).

In the end no statement waits, so that every statement is settled (`State.final_settled`). In terms
of the facts before the statements this says that the facts before a statement are the merge of the
effects of its reached predecessors (`factsBefore_eq_joinAll`).
-/

namespace CryptoAudit

/-- The locals to which the statements of a body assign, in order. -/
def Body.targets (b : Body) : List String :=
  b.statements.filterMap fun
    | .assign x _ => some x
    | .invoke _ | .nop => none

theorem Body.mem_targets {b : Body} {i : Nat} {x : String} {value : Operand}
    (h : b.statements[i]? = some (.assign x value)) : x ∈ b.targets :=
  List.mem_filterMap.2 ⟨_, List.mem_of_getElem? h, rfl⟩

namespace Facts

/-! ## The locals that facts bind -/

/-- The facts bind only locals of the list. -/
def BindsOnly (facts : Facts) (names : List String) : Prop :=
  ∀ (x : String) (v : Argument), facts[x]? = some v → x ∈ names

theorem bindsOnly_empty (names : List String) : BindsOnly ∅ names := by
  intro x v h
  simp at h

theorem Within.bindsOnly {a b : Facts} {names : List String} (h : a.Within b)
    (hb : b.BindsOnly names) : a.BindsOnly names :=
  fun x v hx => hb x v (h x v hx)

/-- A statement of the body binds no local but the targets of its statements. -/
theorem BindsOnly.transfer {facts : Facts} {b : Body} {i : Nat} {stmt : Statement}
    (h : facts.BindsOnly b.targets) (hi : b.statements[i]? = some stmt) :
    (facts.transfer stmt).BindsOnly b.targets := by
  intro x v hx
  rw [getElem?_transfer] at hx
  cases stmt with
  | assign y value =>
    rw [Statement.source] at hx
    split at hx
    next heq => exact heq ▸ Body.mem_targets hi
    next => exact h x v hx
  | invoke inv =>
    rw [Statement.source] at hx
    split at hx
    next => cases hx
    next => exact h x v hx
  | nop => exact h x v hx

/-- Facts are no more than the locals that they may bind. -/
theorem BindsOnly.size_le {facts : Facts} {names : List String} (h : facts.BindsOnly names) :
    facts.size ≤ names.length := by
  rw [← Std.ExtTreeMap.length_keys]
  refine Std.ExtTreeMap.nodup_keys.length_le_of_subset fun x hx => ?_
  rw [Std.ExtTreeMap.mem_keys, Std.ExtTreeMap.mem_iff_isSome_getElem?] at hx
  obtain ⟨v, hv⟩ := Option.isSome_iff_exists.1 hx
  exact h x v hv

end Facts

namespace Dataflow

namespace State

/-! ## Visits -/

/-- Working on `k` statements, each of them the first that waits, leads from a state to another. -/
inductive Visits (b : Body) : State → Nat → State → Prop
  | refl (s : State) : Visits b s 0 s
  | next {s t : State} {i k : Nat} {rest : List Nat} (hw : s.waiting = i :: rest)
      (h : Visits b (s.visit b b.predecessors i rest) k t) : Visits b s (k + 1) t

section
variable {b : Body} {preds : List (List Nat)} {s : State} {i : Nat} {rest : List Nat}

/-- A visit changes nothing after the statements, or it records another effect of the statement and
makes its successors wait. -/
theorem visit_cases (b : Body) (preds : List (List Nat)) (s : State) (i : Nat) (rest : List Nat) :
    ((s.visit b preds i rest).waiting = rest ∧ (s.visit b preds i rest).after = s.after) ∨
    ∃ stmt input, b.statements[i]? = some stmt ∧ inputAt preds s.after i = some input ∧
      s.after[i]?.join ≠ some (input.transfer stmt) ∧
      (s.visit b preds i rest).waiting = enqueue b.statements.length rest (b.successorsOf i) ∧
      (s.visit b preds i rest).after = s.after.set i (some (input.transfer stmt)) := by
  unfold State.visit
  split
  next stmt input hi hin =>
    dsimp only
    split
    next => exact .inl ⟨rfl, rfl⟩
    next hne => exact .inr ⟨stmt, input, hi, hin, hne, rfl, rfl⟩
  next => exact .inl ⟨rfl, rfl⟩

/-- What is recorded after a statement binds only locals to which the body assigns. -/
def Named (b : Body) (s : State) : Prop :=
  ∀ (i : Nat) (output : Facts), s.after[i]?.join = some output → output.BindsOnly b.targets

theorem named_initial (b : Body) : (initial b.statements.length).Named b := by
  intro i output h
  rw [initial, join_replicate_none] at h
  cases h

/-- The facts before a statement bind only targets, if those after all statements do. -/
theorem Named.inputAt (h : s.Named b) {input : Facts}
    (hin : inputAt preds s.after i = some input) : input.BindsOnly b.targets := by
  unfold Dataflow.inputAt at hin
  split at hin
  next =>
    cases hin
    exact Facts.bindsOnly_empty _
  next =>
    obtain ⟨f, hf⟩ := exists_mem_of_joinAll hin
    obtain ⟨p, -, hp⟩ := List.mem_filterMap.1 hf
    exact (joinAll_within hin hf).bindsOnly (h p f hp)

/-- A visit leaves facts that bind only targets. -/
theorem Named.visit (hs : s.Consistent b preds) (h : s.Named b) :
    (s.visit b preds i rest).Named b := by
  rcases visit_cases b preds s i rest with ⟨-, hafter⟩ | ⟨stmt, input, hi, hin, -, -, hafter⟩
  · intro j output hj
    exact h j output (hafter ▸ hj)
  · have hlt : i < s.after.length := by
      rw [hs.length_after]
      exact (List.getElem?_eq_some_iff.1 hi).1
    intro j output hj
    rw [hafter, getElem?_set_join hlt] at hj
    split at hj
    next =>
      cases hj
      exact (h.inputAt hin).transfer hi
    next => exact h j output hj

/-! ## Every visit is paid for -/

/-- How often what is known after a statement may still change, where `n` locals can be bound. -/
def changesLeft (n : Nat) : Option Facts → Nat
  | none => n + 1
  | some facts => facts.size

/-- What the steps that control may take are charged: the changes of their origins that are still
possible. -/
def charges (b : Body) (after : List (Option Facts)) : Nat :=
  (b.steps.map fun step => changesLeft b.targets.length after[step.1]?.join).sum

/-- A bound on the number of visits from a state on. -/
def potential (b : Body) (s : State) : Nat := s.waiting.length + charges b s.after

/-- Adding statements makes the list of those that wait at most that much longer. -/
theorem length_enqueue_le (n : Nat) (next waiting : List Nat) :
    (enqueue n waiting next).length ≤ waiting.length + next.length := by
  induction next generalizing waiting with
  | nil => exact Nat.le_refl _
  | cons j next ih =>
    have hstep : enqueue n waiting (j :: next) =
        enqueue n (if j < n ∧ j ∉ waiting then waiting ++ [j] else waiting) next := rfl
    have hone : (if j < n ∧ j ∉ waiting then waiting ++ [j] else waiting).length ≤
        waiting.length + 1 := by
      split
      · exact Nat.le_of_eq List.length_append
      · exact Nat.le_succ _
    have hrest := ih (if j < n ∧ j ∉ waiting then waiting ++ [j] else waiting)
    rw [hstep, List.length_cons]
    omega

/-- A sum becomes smaller by at least the number of its parts that do. -/
theorem sum_map_add_countP_le {α : Type} {f g : α → Nat} {P : α → Bool} (l : List α)
    (h : ∀ a ∈ l, g a + (if P a then 1 else 0) ≤ f a) :
    (l.map g).sum + l.countP P ≤ (l.map f).sum := by
  induction l with
  | nil => exact Nat.le_refl 0
  | cons a l ih =>
    obtain ⟨ha, hl⟩ := List.forall_mem_cons.1 h
    have hsum := ih hl
    rw [List.countP_cons, List.map_cons, List.map_cons, List.sum_cons, List.sum_cons]
    omega

/-- The successors of a statement are ends of steps from it. -/
theorem length_successorsOf_le (hi : i < b.statements.length) :
    (b.successorsOf i).length ≤ b.steps.countP (·.1 == i) := by
  have hsublist : ((b.successorsOf i).map (i, ·)).Sublist b.steps :=
    List.sublist_flatten_of_mem (List.mem_map.2 ⟨i, List.mem_range.2 hi, rfl⟩)
  have hcount : ((b.successorsOf i).map (i, ·)).countP (·.1 == i) = (b.successorsOf i).length := by
    rw [List.countP_map, List.countP_eq_length]
    intro j _
    exact beq_self_eq_true i
  exact hcount ▸ hsublist.countP_le

/-- Another effect of a statement is the first one, or it binds less than the one before. -/
theorem changesLeft_lt (hs : s.Consistent b preds) (hn : s.Named b) {stmt : Statement}
    {input : Facts} (hi : b.statements[i]? = some stmt)
    (hin : inputAt preds s.after i = some input)
    (hne : s.after[i]?.join ≠ some (input.transfer stmt)) :
    (input.transfer stmt).size < changesLeft b.targets.length s.after[i]?.join := by
  cases hold : s.after[i]?.join with
  | none => exact Nat.lt_succ_of_le ((hn.inputAt hin).transfer hi).size_le
  | some output =>
    obtain ⟨stmt', input', hi', hin', hwithin⟩ := hs.recompute i output hold
    cases hi.symm.trans hi'
    cases hin.symm.trans hin'
    exact hwithin.size_lt fun heq => hne (hold.trans (congrArg some heq.symm))

/-- A visit takes a statement from the worklist; the steps from it pay for those that it adds. -/
theorem potential_visit_lt (hs : s.Consistent b preds) (hn : s.Named b)
    (hw : s.waiting = i :: rest) : (s.visit b preds i rest).potential b < s.potential b := by
  rw [potential, potential, hw, List.length_cons]
  rcases visit_cases b preds s i rest with
    ⟨hwaiting, hafter⟩ | ⟨stmt, input, hi, hin, hne, hwaiting, hafter⟩
  · rw [hwaiting, hafter]
    omega
  · have hlt : i < b.statements.length := (List.getElem?_eq_some_iff.1 hi).1
    have hfewer := changesLeft_lt hs hn hi hin hne
    have hcharges : charges b (s.after.set i (some (input.transfer stmt))) +
        b.steps.countP (·.1 == i) ≤ charges b s.after := by
      refine sum_map_add_countP_le b.steps fun step _ => ?_
      rw [getElem?_set_join (by rwa [hs.length_after])]
      by_cases hstep : step.1 = i
      · simp only [hstep, if_true, beq_self_eq_true]
        exact hfewer
      · have hbeq : (step.1 == i) = false := beq_eq_false_iff_ne.2 hstep
        simp only [hstep, if_false, hbeq]
        exact Nat.le_refl _
    have hadded := length_enqueue_le b.statements.length (b.successorsOf i) rest
    have hsuccessors := length_successorsOf_le hlt
    rw [hwaiting, hafter]
    omega

/-- The worklist ends after no more visits than the potential. -/
theorem exists_visits (s : State) (hs : s.Consistent b b.predecessors) (hn : s.Named b) :
    ∃ k ≤ s.potential b, Visits b s k (s.run b b.predecessors hs) := by
  fun_induction run b b.predecessors s hs with
  | case1 s hs hw => exact ⟨0, Nat.zero_le _, .refl s⟩
  | case2 s hs i rest hw ih =>
    obtain ⟨k, hk, hvisits⟩ := ih (hn.visit hs)
    have hlt := potential_visit_lt hs hn hw
    exact ⟨k + 1, by omega, .next hw hvisits⟩

end

/-- The potential at the start: every statement waits, and for each step the facts at its origin may
still change once for every target and once for being reached. -/
theorem potential_initial (b : Body) :
    (initial b.statements.length).potential b =
      b.statements.length + (b.targets.length + 1) * b.steps.length := by
  have hcharge : (fun step : Nat × Nat => changesLeft b.targets.length
      (List.replicate b.statements.length (none : Option Facts))[step.1]?.join) =
        fun _ => b.targets.length + 1 := by
    funext step
    rw [join_replicate_none]
    rfl
  rw [potential, charges, initial, hcharge, List.map_const', List.sum_replicate, List.length_range,
    smul_eq_mul, Nat.mul_comm]

end State

/-! ## The facts in the end -/

/-- A join does not depend on the order of its parts, nor on how often they occur. -/
theorem joinAll_congr {fs gs : List Facts} (h : ∀ f, f ∈ fs ↔ f ∈ gs) :
    joinAll fs = joinAll gs := by
  cases hfs : joinAll fs with
  | none =>
    have hnil : gs = [] := by
      rw [List.eq_nil_iff_forall_not_mem]
      intro f hf
      have hmem := (h f).2 hf
      rw [joinAll_eq_none_iff.1 hfs] at hmem
      cases hmem
    rw [hnil]
    rfl
  | some j =>
    cases hgs : joinAll gs with
    | none =>
      obtain ⟨f, hf⟩ := exists_mem_of_joinAll hfs
      have hmem := (h f).1 hf
      rw [joinAll_eq_none_iff.1 hgs] at hmem
      cases hmem
    | some k =>
      have hjk : j.Within k := within_joinAll hgs fun f hf => joinAll_within hfs ((h f).2 hf)
      have hkj : k.Within j := within_joinAll hfs fun f hf => joinAll_within hgs ((h f).1 hf)
      rw [hjk.antisymm hkj]

/-- The statements that control may leave for statement `i`. -/
def predecessorsOf (b : Body) (i : Nat) : List Nat :=
  (List.range b.statements.length).filter (i ∈ b.successorsOf ·)

/-- The effects of the reached predecessors of statement `i` on the facts before them. -/
def effectsInto (b : Body) (solution : List (Option Facts)) (i : Nat) : List Facts :=
  (predecessorsOf b i).filterMap fun p => (factsBefore solution p).map (transferAt b p)

section
variable {b : Body} {i p : Nat} {facts : Facts}

theorem mem_predecessorsOf :
    p ∈ predecessorsOf b i ↔ p < b.statements.length ∧ i ∈ b.successorsOf p := by
  simp [predecessorsOf]

/-- Only statements are reached. -/
theorem lt_of_factsBefore (h : factsBefore (propagate b) i = some facts) :
    i < b.statements.length :=
  (covers_factsBefore h).reached.elim fun _ hwalk => hwalk.lt

/-- The facts before a statement are the merge of the effects of its reached predecessors. -/
theorem factsBefore_eq_joinAll (hi : i < b.statements.length) (hentry : i ≠ 0) :
    factsBefore (propagate b) i = joinAll (effectsInto b (propagate b) i) := by
  have hafter : ∀ p, p < b.statements.length →
      (State.final b).after[p]?.join = (factsBefore (propagate b) p).map (transferAt b p) := by
    intro p hp
    have hsettled := State.final_settled b hp
    rw [factsBefore_propagate, hsettled.after_eq, hsettled.before_eq]
  rw [factsBefore_propagate, (State.final_settled b hi).before_eq, inputAt, if_neg hentry]
  refine joinAll_congr fun f => ?_
  simp only [effectsInto, List.mem_filterMap, mem_predecessorsOf, Body.mem_predecessors]
  constructor
  · rintro ⟨p, ⟨hp, -, hsucc⟩, hf⟩
    exact ⟨p, ⟨hp, hsucc⟩, hafter p hp ▸ hf⟩
  · rintro ⟨p, ⟨hp, hsucc⟩, hf⟩
    exact ⟨p, ⟨hp, hi, hsucc⟩, (hafter p hp).trans hf⟩

theorem factsBefore_entry (h : 0 < b.statements.length) :
    factsBefore (propagate b) 0 = some ∅ := by
  rw [factsBefore_propagate, (State.final_settled b h).before_eq]
  rfl

/-- A statement that control may reach from a reached one is reached. -/
theorem isSome_factsBefore_of_successor (hp : (factsBefore (propagate b) p).isSome = true)
    (hsucc : i ∈ b.successorsOf p) (hi : i < b.statements.length) :
    (factsBefore (propagate b) i).isSome = true := by
  obtain ⟨facts, hfacts⟩ := Option.isSome_iff_exists.1 hp
  by_cases hentry : i = 0
  · subst hentry
    rw [factsBefore_entry hi]
    rfl
  · have hmem : transferAt b p facts ∈ effectsInto b (propagate b) i :=
      List.mem_filterMap.2 ⟨p, mem_predecessorsOf.2 ⟨lt_of_factsBefore hfacts, hsucc⟩,
        by rw [hfacts, Option.map_some]⟩
    rw [factsBefore_eq_joinAll hi hentry, Option.isSome_iff_ne_none, Ne, joinAll_eq_none_iff]
    exact List.ne_nil_of_mem hmem

end

/-- On every body the worklist ends, after no more visits than the statements and, for each step
that control may take, the locals to which the body assigns and one. Then nothing is known before
the first statement, the facts before any other reached statement are the merge of the effects of
its reached predecessors, and every statement with a reached predecessor is reached. -/
theorem propagate_ends_settled (b : Body) :
    (∃ k last, State.Visits b (State.initial b.statements.length) k last ∧ last.waiting = [] ∧
      last.before = propagate b ∧
      k ≤ b.statements.length + (b.targets.length + 1) * b.steps.length) ∧
    (0 < b.statements.length → factsBefore (propagate b) 0 = some ∅) ∧
    (∀ i facts, i ≠ 0 → factsBefore (propagate b) i = some facts →
      joinAll (effectsInto b (propagate b) i) = some facts) ∧
    ∀ p i, (factsBefore (propagate b) p).isSome = true → i ∈ b.successorsOf p →
      i < b.statements.length → (factsBefore (propagate b) i).isSome = true := by
  refine ⟨?_, factsBefore_entry, fun i facts hentry hfacts => ?_, fun p i hp hsucc hi => ?_⟩
  · obtain ⟨k, hk, hvisits⟩ :=
      State.exists_visits _ (State.initial_consistent b b.predecessors) (State.named_initial b)
    rw [State.potential_initial] at hk
    exact ⟨k, State.final b, hvisits, (State.final_working b).2, rfl, hk⟩
  · rw [← factsBefore_eq_joinAll (lt_of_factsBefore hfacts) hentry, hfacts]
  · exact isSome_factsBefore_of_successor hp hsucc hi

/-- A loop on one statement and back to the first. The successors name a statement twice and one
that does not exist, and there are none for the last statement. -/
def tangledBody : Body where
  statements := [.assign "m" (.literal "AES"), .assign "k" (.parameter 0), .nop]
  successors := some [[1, 1, 9], [1, 0]]

/-- The loop loses what is assigned in it, but not what is assigned before it. -/
theorem propagate_ends_settled_tangled :
    factsBefore (propagate tangledBody) 0 = some ∅ ∧
    (∃ facts, factsBefore (propagate tangledBody) 1 = some facts ∧
      joinAll (effectsInto tangledBody (propagate tangledBody) 1) = some facts) ∧
    (propagate tangledBody).map (·.map (·.toList)) =
      [some [], some [("m", .literal "AES")], none] := by
  obtain ⟨-, hentry, hmerged, hreached⟩ := propagate_ends_settled tangledBody
  have hstart : factsBefore (propagate tangledBody) 0 = some ∅ := hentry (by decide)
  have hloop : (factsBefore (propagate tangledBody) 1).isSome = true :=
    hreached 0 1 (by rw [hstart]; rfl) (by decide) (by decide)
  obtain ⟨facts, hfacts⟩ := Option.isSome_iff_exists.1 hloop
  exact ⟨hstart, ⟨facts, hfacts, hmerged 1 facts (by decide) hfacts⟩, by cbv⟩

end Dataflow

end CryptoAudit
