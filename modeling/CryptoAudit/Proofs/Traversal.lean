import Mathlib.Data.List.Forall2

/-!
# Traversals that stop at the first failure

Bodies are lowered and rules are checked one after the other, and the first one that is wrong is
reported. What such a traversal reports is what `List.findSome?` finds: for a map always
(`failure?_mapM`), and for a fold if the state does not decide which items fail
(`failure?_foldlM`). By position, it is the item before which no other fails
(`findSome?_zipIdx_eq_some_iff`), if any fails at all (`findSome?_zipIdx_eq_none_iff`).
-/

namespace CryptoAudit

section
variable {α β ε σ : Type}

/-- The error of a computation that fails. -/
def failure? : Except ε α → Option ε
  | .ok _ => none
  | .error e => some e

theorem failure?_eq_some_iff {x : Except ε α} {e : ε} : failure? x = some e ↔ x = .error e := by
  cases x <;> simp [failure?]

theorem failure?_eq_none_iff {x : Except ε α} : failure? x = none ↔ ∃ a, x = .ok a := by
  cases x <;> simp [failure?]

/-- A fold fails as its first item that fails, if the state does not decide which items fail. -/
theorem failure?_foldlM {f : σ → α → Except ε σ} {g : α → Option ε}
    (hf : ∀ s a, failure? (f s a) = g a) (l : List α) (s : σ) :
    failure? (l.foldlM f s) = l.findSome? g := by
  induction l generalizing s with
  | nil => rfl
  | cons a l ih =>
    rw [List.foldlM_cons, List.findSome?_cons, ← hf s a]
    cases f s a with
    | error e => rfl
    | ok t => exact ih t

/-- A map fails as its first item that fails. -/
theorem failure?_mapM (f : α → Except ε β) (l : List α) :
    failure? (l.mapM f) = l.findSome? fun a => failure? (f a) := by
  induction l with
  | nil => rfl
  | cons a l ih =>
    rw [List.mapM_cons, List.findSome?_cons]
    cases f a with
    | error e => rfl
    | ok b =>
      refine Eq.trans ?_ ih
      cases l.mapM f <;> rfl

/-- A map succeeds if and only if it does so for each item, and then gives the results in order. -/
theorem mapM_eq_ok_iff {f : α → Except ε β} {l : List α} {bs : List β} :
    l.mapM f = .ok bs ↔ List.Forall₂ (fun a b => f a = .ok b) l bs := by
  induction l generalizing bs with
  | nil => simp [pure, Except.pure, eq_comm]
  | cons a l ih =>
    rw [List.mapM_cons, List.forall₂_cons_left_iff]
    simp only [← ih]
    cases f a with
    | error e => simp [bind, Except.bind]
    | ok b => cases l.mapM f <;> simp [bind, Except.bind, pure, Except.pure, eq_comm]

/-- The first hit in a list with positions is at the position before which there is none. -/
theorem findSome?_zipIdx_eq_some_iff {f : α × Nat → Option β} {l : List α} {b : β} :
    l.zipIdx.findSome? f = some b ↔ ∃ i a, l[i]? = some a ∧ f (a, i) = some b ∧
      ∀ j < i, ∀ x, l[j]? = some x → f (x, j) = none := by
  rw [List.findSome?_eq_some_iff]
  constructor
  · rintro ⟨before, hit, after, hsplit, hhit, hbefore⟩
    obtain ⟨earlier, rest, rfl, rfl, hrest⟩ := List.zipIdx_eq_append_iff.1 hsplit
    obtain ⟨a, later, rfl, rfl, -⟩ := List.zipIdx_eq_cons_iff.1 hrest.symm
    rw [Nat.zero_add] at hhit
    refine ⟨earlier.length, a, by simp, hhit, fun j hj x hx => ?_⟩
    rw [List.getElem?_append_left hj] at hx
    exact hbefore (x, j) (List.mk_mem_zipIdx_iff_getElem?.2 hx)
  · rintro ⟨i, a, ha, hhit, hfirst⟩
    obtain ⟨hi, rfl⟩ := List.getElem?_eq_some_iff.1 ha
    have hlength : (l.take i).length = i := List.length_take_of_le (Nat.le_of_lt hi)
    have hsplit : l = l.take i ++ l[i] :: l.drop (i + 1) := by simp
    refine ⟨(l.take i).zipIdx, (l[i], i), (l.drop (i + 1)).zipIdx (i + 1), ?_, hhit, ?_⟩
    · conv_lhs => rw [hsplit]
      rw [List.zipIdx_append, List.zipIdx_cons, hlength, Nat.zero_add]
    · rintro ⟨x, j⟩ hmem
      have hx := List.mk_mem_zipIdx_iff_getElem?.1 hmem
      have hj : j < i := hlength ▸ (List.getElem?_eq_some_iff.1 hx).1
      rw [List.getElem?_take_of_lt hj] at hx
      exact hfirst j hj x hx

/-- There is no hit if and only if no item has one, wherever it stands. -/
theorem findSome?_zipIdx_eq_none_iff {f : α × Nat → Option β} {q : α → Prop}
    (hf : ∀ a i, f (a, i) = none ↔ q a) {l : List α} :
    l.zipIdx.findSome? f = none ↔ ∀ a ∈ l, q a := by
  simp only [List.findSome?_eq_none_iff, Prod.forall, hf]
  constructor
  · intro h a ha
    obtain ⟨i, hi⟩ := List.mem_iff_getElem?.1 ha
    exact h a i (List.mk_mem_zipIdx_iff_getElem?.2 hi)
  · intro h a i hmem
    exact h a (List.mem_of_getElem? (List.mk_mem_zipIdx_iff_getElem?.1 hmem))

end

end CryptoAudit
