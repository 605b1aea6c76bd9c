import Mathlib
import CryptoAudit.Proofs.Dataflow.Fixpoint

/-!
# Predecessors are the converse of successors

Successor lists come from outside: there may be too few or too many of them, and they may name a
statement twice or one that does not exist. Whatever they are, the predecessors of statement `i` are
the statements that name `i` among their successors, each as often as it does so and in the order of
the statements (`Body.getElem?_predecessors`). A step that control may take twice counts twice, and
steps to or from statements that do not exist count nothing (`Body.predecessors_converse`).
-/

namespace CryptoAudit.Body

/-- The statements that name statement `i` among their successors, each as often as it does so. -/
def origins (b : Body) (i : Nat) : List Nat :=
  (List.range b.statements.length).flatMap fun j => List.replicate ((b.successorsOf j).count i) j

/-- Of the steps from one statement, as many lead to `i` as it names `i`. -/
theorem map_filter_steps_from (i j : Nat) (next : List Nat) :
    ((next.map (j, ·)).filter (·.2 == i)).map (·.1) = List.replicate (next.count i) j := by
  rw [List.filter_map, List.map_map, List.count_eq_length_filter]
  exact List.map_const' ..

theorem map_filter_steps (b : Body) (i : Nat) :
    (b.steps.filter (·.2 == i)).map (·.1) = b.origins i := by
  rw [steps, List.filter_flatMap, List.map_flatMap, origins]
  exact List.flatMap_congr fun j _ => map_filter_steps_from i j (b.successorsOf j)

/-- There is a list for each statement, and it holds the origins of the steps to the statement. -/
theorem getElem?_predecessors (b : Body) (i : Nat) :
    b.predecessors[i]? = if i < b.statements.length then some (b.origins i) else none := by
  rw [predecessors, getElem?_foldl_modify, List.getElem?_replicate, map_filter_steps]
  split <;> rfl

/-- There is a list of predecessors for each statement. -/
theorem length_predecessors (b : Body) : b.predecessors.length = b.statements.length := by
  have hiff (i : Nat) : b.predecessors.length ≤ i ↔ b.statements.length ≤ i := by
    rw [← List.getElem?_eq_none_iff, getElem?_predecessors]
    simp
  exact Nat.le_antisymm ((hiff _).2 (Nat.le_refl _)) ((hiff _).1 (Nat.le_refl _))

/-- Statements are taken in order, so the repetitions of one end before those of the next begin. -/
theorem pairwise_origins (b : Body) (i : Nat) : (b.origins i).Pairwise (· ≤ ·) := by
  rw [origins, List.pairwise_flatMap]
  refine ⟨fun j _ => List.pairwise_replicate.2 (.inr (Nat.le_refl j)), ?_⟩
  refine List.pairwise_lt_range.imp fun hlt x hx y hy => ?_
  rw [List.eq_of_mem_replicate hx, List.eq_of_mem_replicate hy]
  exact Nat.le_of_lt hlt

/-- Of the lists that are put one after the other, only the one at `j` holds `j`. -/
theorem count_flatMap_replicate (times : Nat → Nat) (j n : Nat) :
    ((List.range n).flatMap fun k => List.replicate (times k) k).count j =
      if j < n then times j else 0 := by
  induction n with
  | zero => rfl
  | succ n ih =>
    rw [List.range_succ, List.flatMap_append, List.count_append, ih, List.flatMap_singleton,
      List.count_replicate]
    by_cases hj : n = j
    · subst hj
      simp
    · have hlt : j < n + 1 ↔ j < n := by omega
      simp [hj, hlt]

theorem count_origins (b : Body) (i j : Nat) :
    (b.origins i).count j = if j < b.statements.length then (b.successorsOf j).count i else 0 :=
  count_flatMap_replicate (fun j => (b.successorsOf j).count i) j _

/-- There is one list of predecessors for each statement. It holds statements only, a statement `j`
as often as `j` names the statement of the list among its successors, and in non-decreasing
order. -/
theorem predecessors_converse (b : Body) :
    b.predecessors.length = b.statements.length ∧
    ∀ i < b.statements.length, ∃ preds, b.predecessors[i]? = some preds ∧
      (∀ j < b.statements.length, preds.count j = (b.successorsOf j).count i) ∧
      (∀ j ∈ preds, j < b.statements.length) ∧ preds.Pairwise (· ≤ ·) := by
  refine ⟨b.length_predecessors, fun i hi => ⟨b.origins i, ?_, fun j hj => ?_, fun j hj => ?_,
    b.pairwise_origins i⟩⟩
  · rw [getElem?_predecessors, if_pos hi]
  · rw [count_origins, if_pos hj]
  · by_contra hge
    have hpos : 0 < (b.origins i).count j := List.count_pos_iff.2 hj
    rw [count_origins, if_neg hge] at hpos
    exact Nat.lt_irrefl 0 hpos

/-- The first statement names the last one twice, and one that does not exist; the last one has no
list of successors. -/
def raggedBody : Body where
  statements := [.nop, .nop, .nop]
  successors := some [[2, 1, 2, 7], [2, 0]]

/-- A step that is listed twice is counted twice, and one to a statement that does not exist is left
out. -/
theorem predecessors_converse_ragged :
    raggedBody.predecessors = [[1], [0], [0, 0, 1]] ∧ 2 < raggedBody.statements.length ∧
    ∃ preds, raggedBody.predecessors[2]? = some preds ∧
      preds.count 0 = (raggedBody.successorsOf 0).count 2 ∧
      preds.count 2 = (raggedBody.successorsOf 2).count 2 ∧ preds.Pairwise (· ≤ ·) := by
  obtain ⟨preds, hpreds, hcount, -, hordered⟩ := (predecessors_converse raggedBody).2 2 (by decide)
  exact ⟨by decide, by decide, preds, hpreds, hcount 0 (by decide), hcount 2 (by decide), hordered⟩

end CryptoAudit.Body
