import Std.Data.ExtTreeMap.Lemmas
import CryptoAudit.Program.Body
import CryptoAudit.Program.CallSite

/-!
# Facts about locals

`Facts` bind locals to what they are known to hold at one point of a body: a literal or an
unchanged parameter. Where control flow joins, `Facts.merge` keeps the bindings on which both sides
agree; `Facts.transfer` is the effect of one statement.

Facts are compared by containment: `a.Within b` if every binding of `a` is one of `b`. Both
operations are monotone for it (`Facts.merge_within_merge`, `Facts.transfer_within_transfer`), and
facts within others that are not all of them are fewer (`Facts.Within.size_lt`).
-/

namespace CryptoAudit

/-- What is known of the locals at one point of a body. -/
abbrev Facts := Std.ExtTreeMap String Argument

namespace Facts

/-- The bindings on which both sides agree. -/
def merge (a b : Facts) : Facts :=
  a.filter fun x v => b[x]? == some v

/-- The facts after the local `x` has received `value`, if it is known. -/
def set (facts : Facts) (x : String) : Option Argument → Facts
  | some v => facts.insert x v
  | none => facts.erase x

/-- What an operand is known to hold. -/
def eval (facts : Facts) : Operand → Option Argument
  | .literal s => some (.literal s)
  | .parameter i => some (.parameter i)
  | .local x => facts[x]?
  | .other => none

/-- The effect of one statement. -/
def transfer (facts : Facts) : Statement → Facts
  | .assign x value => facts.set x (facts.eval value)
  | .invoke inv =>
    match inv.result with
    | some x => facts.set x none
    | none => facts
  | .nop => facts

/-- Every binding of `a` is one of `b`. -/
def Within (a b : Facts) : Prop :=
  ∀ (x : String) (v : Argument), a[x]? = some v → b[x]? = some v

theorem getElem?_merge {a b : Facts} {x : String} {v : Argument} :
    (merge a b)[x]? = some v ↔ a[x]? = some v ∧ b[x]? = some v := by
  rw [merge, Std.ExtTreeMap.getElem?_filter]
  simp

theorem getElem?_set (facts : Facts) (x y : String) (value : Option Argument) :
    (facts.set x value)[y]? = if x = y then value else facts[y]? := by
  cases value <;>
    simp [set, Std.ExtTreeMap.getElem?_insert, Std.ExtTreeMap.getElem?_erase]

theorem Within.refl (a : Facts) : a.Within a := fun _ _ h => h

theorem Within.trans {a b c : Facts} (hab : a.Within b) (hbc : b.Within c) : a.Within c :=
  fun x v h => hbc x v (hab x v h)

/-- Facts that are within each other are equal. -/
theorem Within.antisymm {a b : Facts} (hab : a.Within b) (hba : b.Within a) : a = b := by
  apply Std.ExtTreeMap.ext_getElem?
  intro x
  apply Option.ext
  intro v
  exact ⟨hab x v, hba x v⟩

/-- Merging keeps the order of facts. -/
theorem merge_within_merge {a b a' b' : Facts} (ha : a.Within a') (hb : b.Within b') :
    (merge a b).Within (merge a' b') := by
  intro x v h
  rw [getElem?_merge] at h ⊢
  exact ⟨ha x v h.1, hb x v h.2⟩

theorem merge_within_left (a b : Facts) : (merge a b).Within a :=
  fun _ _ h => (getElem?_merge.1 h).1

theorem merge_within_right (a b : Facts) : (merge a b).Within b :=
  fun _ _ h => (getElem?_merge.1 h).2

theorem within_merge {a b c : Facts} (ha : c.Within a) (hb : c.Within b) :
    c.Within (merge a b) :=
  fun x v h => getElem?_merge.2 ⟨ha x v h, hb x v h⟩

/-- What some facts tell about an operand, more facts tell too. -/
theorem eval_mono {a b : Facts} (h : a.Within b) {op : Operand} {v : Argument}
    (hv : a.eval op = some v) : b.eval op = some v := by
  cases op with
  | literal | parameter => exact hv
  | other => cases hv
  | «local» x => exact h x v hv

/-- Setting a local keeps the order of facts, if all that is put on the one side is put on the
other. -/
theorem set_within_set {a b : Facts} (h : a.Within b) (x : String) {u w : Option Argument}
    (huw : ∀ v, u = some v → w = some v) : (a.set x u).Within (b.set x w) := by
  intro y v hv
  rw [getElem?_set] at hv ⊢
  by_cases hxy : x = y
  · rw [if_pos hxy] at hv ⊢
    exact huw v hv
  · rw [if_neg hxy] at hv ⊢
    exact h y v hv

/-- A statement keeps the order of facts. -/
theorem transfer_within_transfer {a b : Facts} (h : a.Within b) (s : Statement) :
    (a.transfer s).Within (b.transfer s) := by
  cases s with
  | assign x value => exact set_within_set h x fun _ => eval_mono h
  | invoke inv =>
    simp only [transfer]
    cases inv.result with
    | none => exact h
    | some x => exact set_within_set h x fun _ hv => hv
  | nop => exact h

/-- Facts within others that are not all of them are fewer. -/
theorem Within.size_lt {a b : Facts} (h : a.Within b) (hne : a ≠ b) : a.size < b.size := by
  have hab : a = b.filter fun x v => a[x]? == some v := by
    apply Within.antisymm
    · intro x v hx
      rw [Std.ExtTreeMap.getElem?_filter]
      simp [h x v hx, hx]
    · intro x v hx
      rw [Std.ExtTreeMap.getElem?_filter] at hx
      simp at hx
      grind
  have hle : a.size ≤ b.size := by
    rw [hab]
    exact Std.ExtTreeMap.size_filter_le_size
  refine Nat.lt_of_le_of_ne hle fun heq => hne (Within.antisymm h ?_)
  rw [hab] at heq
  have hall := Std.ExtTreeMap.size_filter_eq_size_iff.1 heq
  intro x v hx
  have hmem : x ∈ b := by
    rw [Std.ExtTreeMap.mem_iff_isSome_getElem?, hx]
    rfl
  have := hall x hmem
  grind

end Facts

end CryptoAudit
