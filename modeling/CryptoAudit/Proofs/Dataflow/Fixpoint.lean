import Mathlib.Data.List.Basic
import CryptoAudit.Dataflow.Propagation

/-!
# Constant propagation reaches a fixed point

When no statement waits any more, the facts before each statement are the join of the facts after
its reached predecessors, and the facts after it are the effect of the statement on them
(`State.final_settled`). The invariant is that this holds at every statement that does not wait
(`State.Working`). Working on a statement changes the facts after it, on which only its successors
depend, and those are made to wait.

That only the successors depend on it is a fact about `Body.predecessors`: they are the converse of
`Body.successorsOf` on the statements of the body (`Body.mem_predecessors`).
-/

namespace CryptoAudit

/-! ## Predecessors -/

namespace Body

/-- Distributing steps over lists appends to each list the steps that lead to its place. -/
theorem getElem?_foldl_modify (steps : List (Nat × Nat)) (lists : List (List Nat)) (j : Nat) :
    (steps.foldl (fun lists step => lists.modify step.2 (· ++ [step.1])) lists)[j]? =
      lists[j]?.map (· ++ (steps.filter (·.2 == j)).map (·.1)) := by
  induction steps generalizing lists with
  | nil => simp
  | cons step steps ih =>
    rw [List.foldl_cons, ih, List.getElem?_modify]
    by_cases h : step.2 = j
    · cases lists[j]? <;> simp [h]
    · cases lists[j]? <;> simp [h]

/-- The predecessors of a statement are the origins of the steps to it, in order. -/
theorem getD_predecessors (b : Body) (j : Nat) :
    b.predecessors[j]?.getD [] =
      if j < b.statements.length then (b.steps.filter (·.2 == j)).map (·.1) else [] := by
  rw [predecessors, getElem?_foldl_modify, List.getElem?_replicate]
  split <;> rfl

theorem mem_steps (b : Body) {i j : Nat} :
    (i, j) ∈ b.steps ↔ i < b.statements.length ∧ j ∈ b.successorsOf i := by
  simp [steps]

/-- Predecessors are the converse of successors on the statements of the body. -/
theorem mem_predecessors (b : Body) {i j : Nat} :
    i ∈ b.predecessors[j]?.getD [] ↔
      i < b.statements.length ∧ j < b.statements.length ∧ j ∈ b.successorsOf i := by
  by_cases hj : j < b.statements.length
  · rw [b.getD_predecessors, if_pos hj, List.mem_map]
    constructor
    · rintro ⟨⟨i', j'⟩, hmem, rfl⟩
      simp only [List.mem_filter, mem_steps, beq_iff_eq] at hmem
      obtain ⟨⟨hi, hs⟩, rfl⟩ := hmem
      exact ⟨hi, hj, hs⟩
    · rintro ⟨hi, -, hs⟩
      refine ⟨(i, j), ?_, rfl⟩
      simp only [List.mem_filter, mem_steps, beq_iff_eq]
      exact ⟨⟨hi, hs⟩, trivial⟩
  · rw [b.getD_predecessors, if_neg hj]
    simp [hj]

end Body

namespace Dataflow

/-! ## The equations of a statement -/

/-- A merge of many knows of a local what all of them know. -/
theorem getElem?_foldl_merge {x : String} {v : Argument} (fs : List Facts) (a : Facts) :
    (fs.foldl Facts.merge a)[x]? = some v ↔ a[x]? = some v ∧ ∀ f ∈ fs, f[x]? = some v := by
  induction fs generalizing a with
  | nil => simp
  | cons f fs ih =>
    rw [List.foldl_cons, ih, Facts.getElem?_merge, List.forall_mem_cons, and_assoc]

/-- A join binds what all its parts bind. -/
theorem getElem?_joinAll {fs : List Facts} {j : Facts} (h : joinAll fs = some j) {x : String}
    {v : Argument} : j[x]? = some v ↔ ∀ f ∈ fs, f[x]? = some v := by
  cases fs with
  | nil => cases h
  | cons f fs =>
    cases h
    rw [getElem?_foldl_merge, List.forall_mem_cons]

/-- Only where there is something to join is there a join. -/
theorem exists_mem_of_joinAll {fs : List Facts} {j : Facts} (h : joinAll fs = some j) :
    ∃ f, f ∈ fs := by
  cases fs with
  | nil => cases h
  | cons f fs => exact ⟨f, List.mem_cons_self ..⟩

/-- The input of a statement depends on what is known after its predecessors only. -/
theorem inputAt_congr {preds : List (List Nat)} {after after' : List (Option Facts)} {i : Nat}
    (h : ∀ p ∈ preds[i]?.getD [], after[p]?.join = after'[p]?.join) :
    inputAt preds after i = inputAt preds after' i := by
  unfold inputAt
  rw [List.filterMap_congr h]

/-- A statement with a reached predecessor has an input, which is contained in what is known after
the predecessor. -/
theorem inputAt_of_mem {preds : List (List Nat)} {after : List (Option Facts)} {i p : Nat}
    {f : Facts} (hp : p ∈ preds[i]?.getD []) (hf : after[p]?.join = some f) :
    ∃ input, inputAt preds after i = some input ∧ input.Within f := by
  unfold inputAt
  by_cases hi : i = 0
  · rw [if_pos hi]
    exact ⟨∅, rfl, fun x v hx => by simp at hx⟩
  · rw [if_neg hi]
    have hmem : f ∈ (preds[i]?.getD []).filterMap fun p => after[p]?.join :=
      List.mem_filterMap.2 ⟨p, hp, hf⟩
    cases hj : joinAll ((preds[i]?.getD []).filterMap fun p => after[p]?.join) with
    | none =>
      rw [joinAll_eq_none_iff.1 hj] at hmem
      cases hmem
    | some input => exact ⟨input, rfl, joinAll_within hj hmem⟩

/-- The effect of statement `i` on facts. -/
def transferAt (b : Body) (i : Nat) (facts : Facts) : Facts :=
  match b.statements[i]? with
  | some stmt => facts.transfer stmt
  | none => facts

theorem transferAt_eq {b : Body} {i : Nat} {stmt : Statement} (h : b.statements[i]? = some stmt)
    (facts : Facts) : transferAt b i facts = facts.transfer stmt := by
  rw [transferAt, h]

namespace State

/-- What is recorded before and after a statement is what its equations say. -/
structure Settled (b : Body) (s : State) (i : Nat) : Prop where
  before_eq : s.before[i]?.join = inputAt b.predecessors s.after i
  after_eq : s.after[i]?.join = (inputAt b.predecessors s.after i).map (transferAt b i)

/-- Every statement that does not wait is settled. -/
structure Working (b : Body) (s : State) : Prop where
  consistent : s.Consistent b b.predecessors
  length_before : s.before.length = b.statements.length
  unreached : ∀ i : Nat, s.after[i]?.join = none → s.before[i]?.join = none
  settled : ∀ i, i < b.statements.length → i ∉ s.waiting → s.Settled b i

/-- What waits after statements are added is what waited before and those of them that exist. -/
theorem mem_enqueue {n x : Nat} (next : List Nat) (waiting : List Nat) :
    x ∈ enqueue n waiting next ↔ x ∈ waiting ∨ x ∈ next ∧ x < n := by
  induction next generalizing waiting with
  | nil => simp [enqueue]
  | cons s next ih =>
    have hstep : enqueue n waiting (s :: next) =
        enqueue n (if s < n ∧ s ∉ waiting then waiting ++ [s] else waiting) next := rfl
    rw [hstep, ih]
    split
    next h => grind
    next h => grind

section
variable {b : Body} {s : State} {i j : Nat} {rest : List Nat}

/-- A statement's equations depend on its own record and on what is known after its
predecessors. -/
theorem Settled.congr {t : State} (h : s.Settled b j)
    (hbefore : t.before[j]?.join = s.before[j]?.join)
    (hafter : t.after[j]?.join = s.after[j]?.join)
    (hpreds : ∀ p ∈ b.predecessors[j]?.getD [], t.after[p]?.join = s.after[p]?.join) :
    t.Settled b j := by
  have hinput := inputAt_congr hpreds
  exact ⟨by rw [hbefore, hinput, h.before_eq], by rw [hafter, hinput, h.after_eq]⟩

theorem join_replicate_none (n i : Nat) :
    (List.replicate n (none : Option Facts))[i]?.join = none := by
  rw [List.getElem?_replicate]
  split <;> rfl

/-- The state from which propagation starts has all statements waiting, so it satisfies the
invariant. -/
theorem working_initial (b : Body) : (initial b.statements.length).Working b where
  consistent := initial_consistent b _
  length_before := by simp [initial]
  unreached i _ := join_replicate_none _ i
  settled i hi hw := absurd (List.mem_range.2 hi) hw

theorem join_set {l : List (Option Facts)} (hi : i < l.length) (f : Facts) :
    (l.set i (some f))[i]?.join = some f := by
  rw [getElem?_set_join hi, if_pos rfl]

theorem join_set_ne {l : List (Option Facts)} (hi : i < l.length) (f : Facts) (hj : j ≠ i) :
    (l.set i (some f))[j]?.join = l[j]?.join := by
  rw [getElem?_set_join hi, if_neg hj]

/-- A statement without input was never reached, so it is settled. -/
theorem Working.settled_of_inputAt_none (h : s.Working b)
    (hin : inputAt b.predecessors s.after i = none) : s.Settled b i := by
  have hafter : s.after[i]?.join = none := by
    cases hcase : s.after[i]?.join with
    | none => rfl
    | some output =>
      obtain ⟨_, input, -, hsome, -⟩ := h.consistent.recompute i output hcase
      rw [hin] at hsome
      cases hsome
  exact ⟨by rw [hin, h.unreached i hafter], by rw [hin, hafter]; rfl⟩

/-- Dropping a settled statement from the worklist. -/
theorem Working.drop (h : s.Working b) (hw : s.waiting = i :: rest)
    (hi : i < b.statements.length → s.Settled b i) :
    State.Working b ⟨rest, s.before, s.after⟩ := by
  refine ⟨⟨h.consistent.length_after, h.consistent.recompute⟩, h.length_before, h.unreached,
    fun j hj hwait => ?_⟩
  by_cases hji : j = i
  · subst hji
    exact ⟨(hi hj).before_eq, (hi hj).after_eq⟩
  · have hsettled := h.settled j hj (by rw [hw]; simpa [hji] using hwait)
    exact ⟨hsettled.before_eq, hsettled.after_eq⟩

/-- Recording the input of a statement and its effect settles the statement. A statement that then
does not wait must have been settled before, and must not depend on what has changed. -/
theorem Working.record {t : State} {stmt : Statement} {input : Facts} (h : s.Working b)
    (hw : s.waiting = i :: rest) (hi : b.statements[i]? = some stmt)
    (hin : inputAt b.predecessors s.after i = some input)
    (hconsistent : t.Consistent b b.predecessors)
    (hbefore : t.before = s.before.set i (some input))
    (hself : t.after[i]?.join = some (input.transfer stmt))
    (hother : ∀ j : Nat, j ≠ i → t.after[j]?.join = s.after[j]?.join)
    (hwait : ∀ j, j < b.statements.length → j ∉ t.waiting →
      j ∉ rest ∧ ∀ p ∈ b.predecessors[j]?.getD [], t.after[p]?.join = s.after[p]?.join) :
    t.Working b := by
  have hlt : i < s.before.length := by
    rw [h.length_before]
    exact (List.getElem?_eq_some_iff.1 hi).1
  refine ⟨hconsistent, by rw [hbefore, List.length_set, h.length_before], fun j hj => ?_,
    fun j hj hmem => ?_⟩
  · by_cases hji : j = i
    · rw [hji, hself] at hj
      cases hj
    · rw [hother j hji] at hj
      rw [hbefore, join_set_ne hlt input hji, h.unreached j hj]
  · obtain ⟨hrest, hpreds⟩ := hwait j hj hmem
    by_cases hji : j = i
    · subst hji
      have hinput : inputAt b.predecessors t.after j = some input := by
        rw [inputAt_congr hpreds, hin]
      refine ⟨?_, ?_⟩
      · rw [hbefore, join_set hlt, hinput]
      · rw [hself, hinput, Option.map_some, transferAt_eq hi]
    · have hsettled := h.settled j hj (by rw [hw]; simp [hji, hrest])
      refine hsettled.congr ?_ (hother j hji) hpreds
      rw [hbefore, join_set_ne hlt input hji]

/-- Working on a statement keeps the statements that do not wait settled. -/
theorem Working.visit (h : s.Working b) (hw : s.waiting = i :: rest) :
    (s.visit b b.predecessors i rest).Working b := by
  have hconsistent : (s.visit b b.predecessors i rest).Consistent b b.predecessors :=
    h.consistent.visit
  unfold State.visit at hconsistent ⊢
  split
  next stmt input hi hin =>
    have hlt : i < s.after.length := by
      rw [h.consistent.length_after]
      exact (List.getElem?_eq_some_iff.1 hi).1
    simp only [hi, hin] at hconsistent
    dsimp only
    split
    next hsame =>
      rw [if_pos hsame] at hconsistent
      exact h.record hw hi hin hconsistent rfl hsame (fun _ _ => rfl)
        fun j _ hrest => ⟨hrest, fun _ _ => rfl⟩
    next hnew =>
      rw [if_neg hnew] at hconsistent
      refine h.record hw hi hin hconsistent rfl (join_set hlt _) (fun j => join_set_ne hlt _)
        fun j hj hmem => ?_
      rw [mem_enqueue, not_or] at hmem
      refine ⟨hmem.1, fun p hp => join_set_ne hlt _ ?_⟩
      -- a statement that depends on this one is a successor of it, and so it waits
      rintro rfl
      exact hmem.2 ⟨(b.mem_predecessors.1 hp).2.2, hj⟩
  next hno =>
    refine h.drop hw fun hlt => h.settled_of_inputAt_none ?_
    cases hin : inputAt b.predecessors s.after i with
    | none => rfl
    | some input => exact absurd hin (hno _ input (List.getElem?_eq_getElem hlt))

/-- What the worklist keeps at each step holds when it is empty. -/
theorem run_preserves {preds : List (List Nat)} {P : State → Prop}
    (hstep : ∀ (s : State) (i : Nat) (rest : List Nat), s.Consistent b preds →
      s.waiting = i :: rest → P s → P (s.visit b preds i rest))
    (s : State) (hs : s.Consistent b preds) (h : P s) :
    P (s.run b preds hs) ∧ (s.run b preds hs).waiting = [] := by
  fun_induction run b preds s hs with
  | case1 s hs hw => exact ⟨h, hw⟩
  | case2 s hs i rest hw ih => exact ih (hstep s i rest hs hw h)

end

/-- The state in which the worklist ends. -/
def final (b : Body) : State :=
  (initial b.statements.length).run b b.predecessors (initial_consistent b b.predecessors)

theorem final_working (b : Body) : (final b).Working b ∧ (final b).waiting = [] :=
  run_preserves (fun _ _ _ _ hw h => h.visit hw) _ _ (working_initial b)

/-- In the end every statement is settled. -/
theorem final_settled (b : Body) {i : Nat} (hi : i < b.statements.length) :
    (final b).Settled b i := by
  obtain ⟨hworking, hempty⟩ := final_working b
  exact hworking.settled i hi (by rw [hempty]; exact List.not_mem_nil)

end State

theorem factsBefore_propagate (b : Body) (i : Nat) :
    factsBefore (propagate b) i = (State.final b).before[i]?.join := rfl

end Dataflow

end CryptoAudit
