import CryptoAudit.Dataflow.Facts

/-!
# Constant propagation

`propagate` finds the facts that hold before each statement of a body, by a worklist. At first every
statement waits. One step takes the first waiting statement, joins what is known after its reached
predecessors (the entry, statement 0, starts with no facts), and applies the statement. If the
result is new, the statement's successors wait again, those that do not already.

The worklist ends on every body. What is known after a statement only shrinks, because it is the
effect of the statement on a join that only shrinks; `State.Consistent` says that what is recorded
after a statement contains what a recomputation would give, and every step keeps it. So each step
reaches a new statement, or drops a binding, or takes a statement from the worklist.
-/

namespace CryptoAudit.Dataflow

/-- The facts on which all of the list agree; none for the empty list. -/
def joinAll : List Facts → Option Facts
  | [] => none
  | f :: fs => some (fs.foldl Facts.merge f)

/-- What is known before statement `i`, given its predecessors and what is known after them. -/
def inputAt (preds : List (List Nat)) (after : List (Option Facts)) (i : Nat) : Option Facts :=
  if i = 0 then some ∅
  else joinAll ((preds[i]?.getD []).filterMap fun p => after[p]?.join)

/-- The worklist and what is known before and after each statement reached so far. -/
structure State where
  waiting : List Nat
  before : List (Option Facts)
  after : List (Option Facts)

namespace State

/-- Every statement waits and nothing is known. -/
def initial (n : Nat) : State :=
  ⟨List.range n, List.replicate n none, List.replicate n none⟩

/-- The worklist with those of `next` that exist and do not wait yet. -/
def enqueue (n : Nat) (waiting next : List Nat) : List Nat :=
  next.foldl (fun w s => if s < n ∧ s ∉ w then w ++ [s] else w) waiting

/-- The effect of working on statement `i`, with `rest` still waiting. -/
def visit (b : Body) (preds : List (List Nat)) (s : State) (i : Nat) (rest : List Nat) : State :=
  match b.statements[i]?, inputAt preds s.after i with
  | some stmt, some input =>
    let output := input.transfer stmt
    let before := s.before.set i (some input)
    if s.after[i]?.join = some output then ⟨rest, before, s.after⟩
    else ⟨enqueue b.statements.length rest (b.successorsOf i), before, s.after.set i (some output)⟩
  | _, _ => ⟨rest, s.before, s.after⟩

/-- What is recorded after a statement contains what a recomputation would give. -/
structure Consistent (b : Body) (preds : List (List Nat)) (s : State) : Prop where
  length_after : s.after.length = b.statements.length
  recompute : ∀ i output, s.after[i]?.join = some output →
    ∃ stmt input, b.statements[i]? = some stmt ∧ inputAt preds s.after i = some input ∧
      (input.transfer stmt).Within output

end State

/-! ## Monotonicity -/

/-- At each statement `new` is reached if `old` is, with no binding that `old` lacks. -/
def Shrunk (new old : List (Option Facts)) : Prop :=
  ∀ (i : Nat) (f : Facts), old[i]?.join = some f → ∃ g, new[i]?.join = some g ∧ g.Within f

theorem Shrunk.refl (a : List (Option Facts)) : Shrunk a a :=
  fun _ f h => ⟨f, h, .refl f⟩

theorem foldl_merge_within : ∀ (fs : List Facts) {a b : Facts}, a.Within b →
    (fs.foldl Facts.merge a).Within b
  | [], _, _, h => h
  | f :: fs, a, _, h => foldl_merge_within fs ((Facts.merge_within_left a f).trans h)

/-- A merge of many is within each of them. -/
theorem foldl_merge_within_mem : ∀ (fs : List Facts) (a : Facts) {f : Facts}, f ∈ fs →
    (fs.foldl Facts.merge a).Within f
  | g :: fs, a, f, h => by
    rcases List.mem_cons.1 h with rfl | h
    · exact foldl_merge_within fs (Facts.merge_within_right a f)
    · exact foldl_merge_within_mem fs _ h

/-- What is within each of many is within their merge. -/
theorem within_foldl_merge : ∀ (fs : List Facts) {a c : Facts}, c.Within a →
    (∀ f ∈ fs, c.Within f) → c.Within (fs.foldl Facts.merge a)
  | [], _, _, h, _ => h
  | f :: fs, _, _, h, hall =>
    within_foldl_merge fs (Facts.within_merge h (hall f (List.mem_cons_self ..)))
      fun g hg => hall g (List.mem_cons_of_mem _ hg)

/-- A join is contained in each of its parts. -/
theorem joinAll_within {fs : List Facts} {j f : Facts} (h : joinAll fs = some j) (hf : f ∈ fs) :
    j.Within f := by
  cases fs with
  | nil => cases hf
  | cons g fs =>
    cases h
    rcases List.mem_cons.1 hf with rfl | hf
    · exact foldl_merge_within fs (.refl _)
    · exact foldl_merge_within_mem fs g hf

/-- What is contained in every part of a join is contained in the join. -/
theorem within_joinAll {fs : List Facts} {j c : Facts} (h : joinAll fs = some j)
    (hc : ∀ f ∈ fs, c.Within f) : c.Within j := by
  cases fs with
  | nil => cases h
  | cons g fs =>
    cases h
    exact within_foldl_merge fs (hc g (List.mem_cons_self ..))
      fun f hf => hc f (List.mem_cons_of_mem _ hf)

theorem joinAll_eq_none_iff {fs : List Facts} : joinAll fs = none ↔ fs = [] := by
  cases fs <;> simp [joinAll]

/-- A statement's input shrinks with what is known after its predecessors. -/
theorem inputAt_shrunk {preds : List (List Nat)} {new old : List (Option Facts)}
    (h : Shrunk new old) {i : Nat} {f : Facts} (hf : inputAt preds old i = some f) :
    ∃ g, inputAt preds new i = some g ∧ g.Within f := by
  unfold inputAt at hf ⊢
  by_cases hi : i = 0
  · rw [if_pos hi] at hf ⊢
    exact ⟨_, hf, .refl _⟩
  · rw [if_neg hi] at hf ⊢
    generalize (preds[i]?.getD []) = ps at hf
    have hmem : ∀ f ∈ ps.filterMap (fun p => old[p]?.join),
        ∃ g ∈ ps.filterMap (fun p => new[p]?.join), g.Within f := by
      intro f hf
      obtain ⟨p, hp, hpf⟩ := List.mem_filterMap.1 hf
      obtain ⟨g, hg, hgf⟩ := h p f hpf
      exact ⟨g, List.mem_filterMap.2 ⟨p, hp, hg⟩, hgf⟩
    cases hj : joinAll (ps.filterMap fun p => new[p]?.join) with
    | none =>
      exfalso
      rw [joinAll_eq_none_iff] at hj
      cases hfs : ps.filterMap (fun p => old[p]?.join) with
      | nil => rw [hfs] at hf; cases hf
      | cons g _ =>
        obtain ⟨g', hg', -⟩ := hmem g (hfs ▸ List.mem_cons_self ..)
        rw [hj] at hg'
        cases hg'
    | some g =>
      refine ⟨g, rfl, within_joinAll hf fun f hf => ?_⟩
      obtain ⟨g', hg', hgf⟩ := hmem f hf
      exact (joinAll_within hj hg').trans hgf

/-! ## The worklist ends -/

/-- How many statements have not been reached. -/
def unreached (after : List (Option Facts)) : Nat := after.countP (·.isNone)

/-- How many bindings are known after all statements together. -/
def bindings (after : List (Option Facts)) : Nat :=
  after.foldr (fun facts n => (match facts with | some f => f.size | none => 0) + n) 0

/-- The facts after a statement that are set are those, and the others are as before. -/
theorem getElem?_set_join {after : List (Option Facts)} {i : Nat} (h : i < after.length)
    (j : Nat) (f : Facts) :
    (after.set i (some f))[j]?.join = if j = i then some f else after[j]?.join := by
  rw [List.getElem?_set]
  grind

section
variable {b : Body} {preds : List (List Nat)} {s : State} {i : Nat} {rest : List Nat}

/-- In a consistent state, what a visit puts after a statement is within what was there. -/
theorem State.Consistent.set (h : s.Consistent b preds) {stmt : Statement} {input : Facts}
    (hi : b.statements[i]? = some stmt) (hin : inputAt preds s.after i = some input) :
    Shrunk (s.after.set i (some (input.transfer stmt))) s.after := by
  have hlt : i < s.after.length := by
    rw [h.length_after]
    exact (List.getElem?_eq_some_iff.1 hi).1
  intro j f hf
  rw [getElem?_set_join hlt]
  split
  next hj =>
    subst hj
    obtain ⟨stmt', input', hi', hin', hw⟩ := h.recompute j f hf
    rw [hi] at hi'
    rw [hin] at hin'
    cases hi'
    cases hin'
    exact ⟨_, rfl, hw⟩
  next => exact ⟨f, hf, .refl f⟩

/-- Working on a statement keeps consistency. -/
theorem State.Consistent.visit (h : s.Consistent b preds) :
    (s.visit b preds i rest).Consistent b preds := by
  unfold State.visit
  split
  next stmt input hi hin =>
    dsimp only
    split
    next => exact ⟨h.length_after, h.recompute⟩
    next =>
      have hlt : i < s.after.length := by
        rw [h.length_after]
        exact (List.getElem?_eq_some_iff.1 hi).1
      have hshrunk := h.set hi hin
      refine ⟨by simpa using h.length_after, fun j output hj => ?_⟩
      rw [getElem?_set_join hlt] at hj
      split at hj
      next hji =>
        subst hji
        cases hj
        obtain ⟨g, hg, hgw⟩ := inputAt_shrunk hshrunk hin
        exact ⟨stmt, g, hi, hg, Facts.transfer_within_transfer hgw stmt⟩
      next =>
        obtain ⟨stmt', input', hi', hin', hw⟩ := h.recompute j output hj
        obtain ⟨g, hg, hgw⟩ := inputAt_shrunk hshrunk hin'
        exact ⟨stmt', g, hi', hg, (Facts.transfer_within_transfer hgw stmt').trans hw⟩
  next => exact ⟨h.length_after, h.recompute⟩

/-- At the start nothing is recorded. -/
theorem State.initial_consistent (b : Body) (preds : List (List Nat)) :
    (State.initial b.statements.length).Consistent b preds := by
  refine ⟨by simp [State.initial], fun i output h => ?_⟩
  simp [State.initial, List.getElem?_replicate] at h
  grind

/-- Reaching a statement leaves fewer that are not reached. -/
theorem unreached_set_lt {after : List (Option Facts)} {i : Nat} (f : Facts)
    (h : after[i]? = some none) : unreached (after.set i (some f)) < unreached after := by
  obtain ⟨hi, hnone⟩ := List.getElem?_eq_some_iff.1 h
  induction after generalizing i with
  | nil => cases hi
  | cons a as ih =>
    cases i with
    | zero => simp_all [unreached]
    | succ i =>
      have := ih (i := i) (by simpa using h) (by simpa using hi) (by simpa using hnone)
      simp only [unreached, List.set_cons_succ, List.countP_cons] at this ⊢
      omega

/-- Visiting a statement again leaves as many that are not reached. -/
theorem unreached_set_eq {after : List (Option Facts)} {i : Nat} (f : Facts) {g : Facts}
    (h : after[i]? = some (some g)) : unreached (after.set i (some f)) = unreached after := by
  induction after generalizing i with
  | nil => cases h
  | cons a as ih =>
    cases i with
    | zero => simp_all [unreached]
    | succ i =>
      have := ih (i := i) (by simpa using h)
      simp only [unreached, List.set_cons_succ, List.countP_cons] at this ⊢
      omega

/-- Fewer facts after one statement are fewer facts in all. -/
theorem bindings_set_lt {after : List (Option Facts)} {i : Nat} {f g : Facts}
    (h : after[i]? = some (some g)) (hlt : f.size < g.size) :
    bindings (after.set i (some f)) < bindings after := by
  induction after generalizing i with
  | nil => cases h
  | cons a as ih =>
    cases i with
    | zero =>
      simp only [List.getElem?_cons_zero, Option.some.injEq] at h
      subst h
      simp only [bindings, List.set_cons_zero, List.foldr_cons]
      omega
    | succ i =>
      have := ih (i := i) (by simpa using h)
      simp only [bindings, List.set_cons_succ, List.foldr_cons] at this ⊢
      omega

/-- Working on a waiting statement reaches a new one, drops a binding, or leaves fewer waiting. -/
theorem State.visit_decreases (h : s.Consistent b preds) (hw : s.waiting = i :: rest) :
    Prod.Lex (· < ·) (Prod.Lex (· < ·) (· < ·))
      (unreached (s.visit b preds i rest).after, bindings (s.visit b preds i rest).after,
        (s.visit b preds i rest).waiting.length)
      (unreached s.after, bindings s.after, s.waiting.length) := by
  unfold State.visit
  split
  next stmt input hi hin =>
    dsimp only
    split
    next => exact .right _ (.right _ (by simp [hw]))
    next hne =>
      have hlt : i < s.after.length := by
        rw [h.length_after]
        exact (List.getElem?_eq_some_iff.1 hi).1
      cases ha : s.after[i] with
      | none =>
        exact .left _ _ (unreached_set_lt _ (List.getElem?_eq_some_iff.2 ⟨hlt, ha⟩))
      | some g =>
        have hg : s.after[i]? = some (some g) := List.getElem?_eq_some_iff.2 ⟨hlt, ha⟩
        obtain ⟨stmt', input', hi', hin', hwithin⟩ := h.recompute i g (by simp [hg])
        rw [hi] at hi'
        rw [hin] at hin'
        cases hi'
        cases hin'
        have hsize := hwithin.size_lt fun heq => hne (by simp [hg, heq])
        rw [unreached_set_eq _ hg]
        exact .right _ (.left _ _ (bindings_set_lt hg hsize))
  next => exact .right _ (.right _ (by simp [hw]))

end

/-- Works until no statement waits. -/
def State.run (b : Body) (preds : List (List Nat)) (s : State) (h : s.Consistent b preds) : State :=
  match _hw : s.waiting with
  | [] => s
  | i :: rest => (s.visit b preds i rest).run b preds h.visit
termination_by (unreached s.after, bindings s.after, s.waiting.length)
decreasing_by exact State.visit_decreases h _hw

/-- What is known before each statement; none for statements that cannot be reached. -/
def propagate (b : Body) : List (Option Facts) :=
  let preds := b.predecessors
  ((State.initial b.statements.length).run b preds (State.initial_consistent b preds)).before

/-- What is known before statement `i`. -/
def factsBefore (solution : List (Option Facts)) (i : Nat) : Option Facts :=
  solution[i]?.join

/-- What an operand is known to hold before statement `i`. -/
def lowerOperand (solution : List (Option Facts)) (i : Nat) : Operand → Argument
  | .literal s => .literal s
  | .parameter k => .parameter k
  | .local x => ((factsBefore solution i).bind (·[x]?)).getD .unsupported
  | .other => .unsupported

end CryptoAudit.Dataflow
