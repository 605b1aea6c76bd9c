import Mathlib.Data.List.Perm.Basic
import Mathlib.Logic.Equiv.Basic
import CryptoAudit.Proofs.Model.Classes
import CryptoAudit.Proofs.Resolution.Renaming

/-!
# Models in another order

The files of a model, and the classes in a file, may come in any order (`Reordered`). The methods
then have other positions, and so other names. Otherwise the lowered program is the same: the calls
are those of the renamed methods (`Reordering.renames`), and lowering fails for one order if and
only if it fails for the other (`Reordered.lower_ok_iff`). Edges are recorded in another
order, and a class that is declared more than once may get another source file.
-/

namespace CryptoAudit.Model

open Resolution

/-- The same file, with its classes in any order. -/
structure SameFile (s t : Source) : Prop where
  name : s.name = t.name
  fileName : s.file.name = t.file.name
  classes : s.file.classes.Perm t.file.classes

/-- The same files in any order, with the classes of each in any order. -/
def Reordered (s t : List Source) : Prop :=
  ∃ u, s.Perm u ∧ List.Forall₂ SameFile u t

/-! ## What the order does not change -/

section
variable {s t : List Source}

/-- What files have, up to order, is the same for all files together. -/
theorem Reordered.flatMap_perm {β : Type} {f : Source → List β} (h : Reordered s t)
    (hf : ∀ a b, SameFile a b → (f a).Perm (f b)) : (s.flatMap f).Perm (t.flatMap f) := by
  obtain ⟨u, hperm, hfiles⟩ := h
  refine (hperm.flatMap_right f).trans ?_
  clear hperm
  induction hfiles with
  | nil => exact .refl _
  | cons hfile _ ih => exact (hf _ _ hfile).append ih

theorem Reordered.entries_perm (h : Reordered s t) : (entries s).Perm (entries t) := by
  refine h.flatMap_perm fun a b hfile => ?_
  rw [hfile.name]
  exact hfile.classes.flatMap_right _

theorem Reordered.classModels_perm (h : Reordered s t) : (classModels s).Perm (classModels t) :=
  h.flatMap_perm fun _ _ hfile => hfile.classes

/-- Lowering succeeds for both orders or for none. -/
theorem Reordered.lower_ok_iff (h : Reordered s t) (name : String) :
    (∃ p, lower name s = .ok p) ↔ ∃ q, lower name t = .ok q := by
  simp only [Model.lower_ok_iff, h.entries_perm.mem_iff]

/-- A class that is declared at most once. -/
def declaredOnce (sources : List Source) (className : String) : Bool :=
  ((classModels sources).filter (·.name == className)).length ≤ 1

/-- The source file of a class that is declared at most once does not depend on the order. -/
theorem Reordered.sourceFileOf_eq {name : String} {p q : Program} (h : Reordered s t)
    (hs : lower name s = .ok p) (ht : lower name t = .ok q) {className : String}
    (honce : declaredOnce s className = true) :
    p.sourceFileOf className = q.sourceFileOf className := by
  have hperm := h.classModels_perm.filter (·.name == className)
  have heq : (classModels s).filter (·.name == className) =
      (classModels t).filter (·.name == className) := by
    have hlength := of_decide_eq_true honce
    generalize (classModels s).filter (·.name == className) = l at hperm hlength
    rcases l with _ | ⟨c, _ | ⟨_, _⟩⟩
    · exact hperm.nil_eq
    · exact (List.perm_singleton.1 hperm.symm).symm
    · simp at hlength
  rw [sourceFileOf_lower hs, sourceFileOf_lower ht, heq]

end

/-! ## Other positions -/

/-- The renaming that leaves the first name and renames the others. -/
def shift (σ : Equiv.Perm Nat) : Equiv.Perm Nat where
  toFun
    | 0 => 0
    | i + 1 => σ i + 1
  invFun
    | 0 => 0
    | i + 1 => σ.symm i + 1
  left_inv i := by cases i <;> simp
  right_inv i := by cases i <;> simp

/-- The positions in a list of which another is a reordering. -/
theorem exists_position_of_perm {α : Type} {l l' : List α} (h : l.Perm l') :
    ∃ σ : Equiv.Perm Nat, ∀ i, l'[σ i]? = l[i]? := by
  induction h with
  | nil => exact ⟨Equiv.refl Nat, fun _ => rfl⟩
  | cons a _ ih =>
    obtain ⟨σ, hσ⟩ := ih
    refine ⟨shift σ, fun i => ?_⟩
    cases i with
    | zero => rfl
    | succ i => exact hσ i
  | swap a b l =>
    refine ⟨Equiv.swap 0 1, fun i => ?_⟩
    match i with
    | 0 => rfl
    | 1 => rfl
    | i + 2 => rw [Equiv.swap_apply_of_ne_of_ne (by omega) (by omega)]; rfl
  | trans _ _ ih ih' =>
    obtain ⟨σ, hσ⟩ := ih
    obtain ⟨τ, hτ⟩ := ih'
    exact ⟨σ.trans τ, fun i => (hτ (σ i)).trans (hσ i)⟩

/-- The same items at renamed positions are the items of the other list with their positions. -/
theorem zipIdx_map_perm {α : Type} {l l' : List α} {σ : Equiv.Perm Nat}
    (hσ : ∀ i : Nat, l'[σ i]? = l[i]?) :
    (l.zipIdx.map fun a => (a.1, σ a.2)).Perm l'.zipIdx := by
  have hnodup : ∀ l : List α, l.zipIdx.Nodup := fun l =>
    .of_map Prod.snd (by rw [List.zipIdx_map_snd]; exact List.nodup_range')
  have hinjective : Function.Injective fun a : α × Nat => (a.1, σ a.2) := by
    rintro ⟨a, i⟩ ⟨b, j⟩ heq
    simpa using heq
  rw [List.perm_ext_iff_of_nodup ((hnodup l).map hinjective) (hnodup l')]
  rintro ⟨a, i⟩
  rw [List.mk_mem_zipIdx_iff_getElem?, List.mem_map]
  constructor
  · rintro ⟨⟨b, j⟩, hmem, heq⟩
    obtain ⟨rfl, rfl⟩ := Prod.mk.inj heq
    rw [hσ]
    exact List.mk_mem_zipIdx_iff_getElem?.1 hmem
  · intro hi
    refine ⟨(a, σ.symm i), List.mk_mem_zipIdx_iff_getElem?.2 ?_, by simp⟩
    rw [← hσ, Equiv.apply_symm_apply]
    exact hi

/-! ## The calls of the renamed methods -/

/-- A name means the same methods in whatever order they stand. -/
theorem pick_perm {methods methods' : List Method} (h : methods.Perm methods') (arity : Nat)
    (name : String) : (pick methods arity name).Perm (pick methods' arity name) := by
  have hcandidates := h.filter (·.qualifiedName == name)
  have hfitting := hcandidates.filter (·.parameters.length == arity)
  simp only [pick_eq, hcandidates.length_eq, hfitting.length_eq]
  split
  · exact hcandidates.map _
  · exact hfitting.map _

/-- A call may reach the same methods in whatever order they stand. -/
theorem resolveCallees_perm {methods methods' : List Method} (h : methods.Perm methods')
    (inv : Invocation) :
    (resolveCallees methods inv).Perm (resolveCallees methods' inv) := by
  unfold resolveCallees
  split
  next names _ => exact .flatMap_left names fun name _ => pick_perm h _ name
  next => exact pick_perm h _ _

/-- What an edge passes is what is known of an argument of its call. -/
theorem passed_lower {name : String} {sources : List Source} {p : Program}
    (h : lower name sources = .ok p) (edge : CallEdge) (i : Nat) :
    (p.callSite? edge.site).bind (·.arguments[i]?) = (bodyOf sources edge.caller).bind fun b =>
      b.invocations[edge.site.index]?.bind fun call =>
        (call.2.args.map (Dataflow.lowerOperand (Dataflow.propagate b) call.1))[i]? := by
  rw [Program.callSite?, lower_method? h, bodyOf, CallEdge.caller]
  cases (entries sources)[edge.site.method]? with
  | none => rfl
  | some e =>
    cases hbody : e.model.body with
    | none => simp [Entry.lowered, hbody]
    | some b =>
      simp only [Entry.lowered, hbody, sitesOf, Option.map_some, Option.bind_eq_bind,
        Option.bind_some, List.getElem?_map, List.getElem?_zipIdx]
      cases b.invocations[edge.site.index]? with
      | none => rfl
      | some call => exact List.getElem?_map

/-- The method under another name. -/
def renameMethod (σ : MethodId → MethodId) (m : Method) : Method := { m with id := σ m.id }

/-- Two lowered programs whose methods are the same up to positions. -/
structure Reordering (name : String) (s t : List Source) (p q : Program)
    (σ : Equiv.Perm MethodId) : Prop where
  left : lower name s = .ok p
  right : lower name t = .ok q
  entry : ∀ i : Nat, (entries t)[σ i]? = (entries s)[i]?

namespace Reordering

variable {name : String} {s t : List Source} {p q : Program} {σ : Equiv.Perm MethodId}

theorem bodyOf_eq (h : Reordering name s t p q σ) (i : MethodId) :
    bodyOf t (σ i) = bodyOf s i := by
  rw [bodyOf, h.entry, bodyOf]

/-- A call may reach the renamed methods. -/
theorem mem_resolveCallees (h : Reordering name s t p q σ) (inv : Invocation) (c : MethodId) :
    σ c ∈ resolveCallees q.methods inv ↔ c ∈ resolveCallees p.methods inv := by
  have hmethods : ((methodsFrom 0 (entries s)).map (renameMethod σ)).Perm
      (methodsFrom 0 (entries t)) := by
    have hperm := (zipIdx_map_perm h.entry).map fun e => e.1.declaration.toMethod e.2
    rw [List.map_map] at hperm
    rw [methodsFrom, List.map_map]
    exact hperm
  have hcallees := resolveCallees_perm hmethods inv
  rw [resolveCallees_map (f := renameMethod σ) (σ := σ) (fun _ => rfl) (fun _ => rfl)
    (fun _ => rfl)] at hcallees
  rw [resolveCallees_lower h.left, resolveCallees_lower h.right, (declare_has name s).methods,
    (declare_has name t).methods, ← hcallees.mem_iff, List.mem_map_of_injective σ.injective]

/-- The program of the other order has the calls of the renamed methods. -/
theorem renames (h : Reordering name s t p q σ) : Renames σ p q where
  mem_edgesInto m e := by
    rw [mem_edgesInto_lower h.left, mem_edgesInto_lower h.right]
    simp only [CallEdge.caller_rename, h.bodyOf_eq, h.mem_resolveCallees]
    exact and_congr_left fun _ => σ.injective.eq_iff
  passed e i := by
    rw [passed_lower h.left, passed_lower h.right, CallEdge.caller_rename, h.bodyOf_eq]
    rfl

end Reordering

end CryptoAudit.Model
