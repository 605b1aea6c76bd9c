import Mathlib
import CryptoAudit.Proofs.Dataflow.Paths

/-!
# Facts are a meet-semilattice on which statements act

Facts are ordered by containment. The merge of two facts is the greatest set of bindings that both
contain, so that facts are a semilattice with `Facts.merge` as meet, and it does not matter in which
order the facts of several predecessors are merged, nor how often.

A statement acts on this semilattice as a homomorphism (`Facts.transfer_merge`): to merge first
loses nothing that is known on both sides after the statement. The reason is that a local holds
afterwards what one operand held before (`Facts.getElem?_transfer`). A constant is the same on both
sides, and a local is bound by the merge to what both sides bind it to (`Facts.eval_merge_iff`).
What the target of an assignment held before plays no part, whether or not it is also the source.
-/

namespace CryptoAudit.Facts

/-! ## The semilattice -/

/-- Facts by containment, with what both sides agree on as meet. -/
instance : SemilatticeInf Facts where
  le := Within
  le_refl := Within.refl
  le_trans _ _ _ := Within.trans
  le_antisymm _ _ := Within.antisymm
  inf := merge
  inf_le_left := merge_within_left
  inf_le_right := merge_within_right
  le_inf _ _ _ := within_merge

theorem merge_comm (a b : Facts) : merge a b = merge b a := inf_comm a b

theorem merge_assoc (a b c : Facts) : merge (merge a b) c = merge a (merge b c) := inf_assoc a b c

theorem merge_self (a : Facts) : merge a a = a := inf_idem a

/-! ## The action of statements -/

/-- An operand is known to hold a value where both sides agree if and only if it is known to hold
it on both sides. -/
theorem eval_merge_iff {a b : Facts} {op : Operand} {v : Argument} :
    (merge a b).eval op = some v ↔ a.eval op = some v ∧ b.eval op = some v := by
  cases op with
  | literal | parameter | other => exact and_self_iff.symm
  | «local» x => exact getElem?_merge

/-- A statement does to merged facts what it does to each of them. -/
theorem transfer_merge (s : Statement) (a b : Facts) :
    (merge a b).transfer s = merge (a.transfer s) (b.transfer s) := by
  apply Std.ExtTreeMap.ext_getElem?
  intro x
  apply Option.ext
  intro v
  rw [getElem?_merge, getElem?_transfer, getElem?_transfer, getElem?_transfer, eval_merge_iff]

/-- A statement as a homomorphism of facts. -/
def transferHom (s : Statement) : InfHom Facts Facts where
  toFun facts := facts.transfer s
  map_inf' := transfer_merge s

/-- Merging is commutative, associative and idempotent, and gives the greatest bindings that are
contained in both sides. Every statement has the same effect on a merge as on its two sides, and
therefore keeps containment. -/
theorem transfer_respects_meets :
    (∀ a b, merge a b = merge b a) ∧
    (∀ a b c, merge (merge a b) c = merge a (merge b c)) ∧
    (∀ a, merge a a = a) ∧
    (∀ a b, (merge a b).Within a ∧ (merge a b).Within b ∧
      ∀ c : Facts, c.Within a → c.Within b → c.Within (merge a b)) ∧
    (∀ s a b, transfer (merge a b) s = merge (a.transfer s) (b.transfer s)) ∧
    ∀ s a b, Within a b → (a.transfer s).Within (b.transfer s) := by
  refine ⟨merge_comm, merge_assoc, merge_self, fun a b => ?_, transfer_merge, fun s a b h => ?_⟩
  · exact ⟨merge_within_left a b, merge_within_right a b, fun c => within_merge⟩
  · exact OrderHomClass.mono (transferHom s) h

/-- What is known after one of several branches: all of them give `m` the same value, and `k` a
value of their own. -/
def afterBranch (i : Nat) : Facts :=
  (set ∅ "m" (some (.literal "AES"))).set "k" (some (.parameter i))

/-- After the branches `k` is not known any more; it is copied to itself, and to a local that is
known. -/
theorem transfer_respects_meets_copies :
    let joined := merge (afterBranch 0) (afterBranch 1)
    joined.toList = [("m", .literal "AES")] ∧ joined.Within (afterBranch 1) ∧
      (joined.transfer (.assign "k" (.local "k"))).Within
        ((afterBranch 1).transfer (.assign "k" (.local "k"))) ∧
      (joined.transfer (.assign "m" (.local "k"))).Within
        ((afterBranch 1).transfer (.assign "m" (.local "k"))) ∧
      ((afterBranch 1).transfer (.assign "m" (.local "k"))).toList =
        [("k", .parameter 1), ("m", .parameter 1)] ∧
      (joined.transfer (.assign "m" (.local "k"))).toList = [] := by
  intro joined
  obtain ⟨-, -, -, hmeet, -, hmono⟩ := transfer_respects_meets
  have hwithin : joined.Within (afterBranch 1) := (hmeet _ _).2.1
  exact ⟨by cbv, hwithin, hmono _ _ _ hwithin, hmono _ _ _ hwithin, by cbv, by cbv⟩

end CryptoAudit.Facts
