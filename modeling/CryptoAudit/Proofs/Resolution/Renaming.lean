import Mathlib.Data.List.Nodup
import Mathlib.Logic.Equiv.Basic
import CryptoAudit.Proofs.Resolution.Chain

/-!
# Programs that differ in the names of their methods

A program `Renames` another if it has the same calls between renamed methods, whatever the order in
which they were recorded. The search then goes another way: it looks at edges in another order and
remembers other failures. But a grounding chain is a fact about the calls alone, so that both
programs have the same chains up to names and positions (`Renames.groundingChain`), and a parameter
is resolved in both or in none (`Renames.resolve`). Only which of several chains comes first may
differ.
-/

namespace CryptoAudit

/-- The edge between the renamed methods. -/
def CallEdge.rename (σ : MethodId → MethodId) (e : CallEdge) : CallEdge :=
  ⟨⟨σ e.site.method, e.site.index⟩, σ e.callee⟩

@[simp] theorem CallEdge.caller_rename (σ : MethodId → MethodId) (e : CallEdge) :
    (e.rename σ).caller = σ e.caller := rfl

@[simp] theorem CallEdge.rename_symm (σ : Equiv.Perm MethodId) (e : CallEdge) :
    (e.rename σ.symm).rename σ = e := by
  simp [CallEdge.rename]

namespace Resolution

/-- Both programs have the same calls up to the names of methods, and pass the same arguments. -/
structure Renames (σ : Equiv.Perm MethodId) (p q : Program) : Prop where
  mem_edgesInto : ∀ m e, e.rename σ ∈ q.edgesInto (σ m) ↔ e ∈ p.edgesInto m
  passed : ∀ (e : CallEdge) (i : Nat), (q.callSite? (e.rename σ).site).bind (·.arguments[i]?) =
    (p.callSite? e.site).bind (·.arguments[i]?)

section
variable {σ : Equiv.Perm MethodId} {p q : Program}

theorem Renames.symm (h : Renames σ p q) : Renames σ.symm q p where
  mem_edgesInto m e := by
    rw [← h.mem_edgesInto, CallEdge.rename_symm, Equiv.apply_symm_apply]
  passed e i := by rw [← h.passed, CallEdge.rename_symm]

/-- A renamed edge stands somewhere among the edges into the renamed method. -/
theorem Renames.exists_position (h : Renames σ p q) {m : MethodId} {n : Nat} {e : CallEdge}
    (he : (p.edgesInto m)[n]? = some e) :
    ∃ n' : Nat, (q.edgesInto (σ m))[n']? = some (e.rename σ) :=
  List.mem_iff_getElem?.1 ((h.mem_edgesInto m e).2 (List.mem_of_getElem? he))

/-- A chain leads to its literal under the other names too, through the renamed callers. -/
theorem Renames.leads (h : Renames σ p q) {m : MethodId} {i : Nat} {chain : List Link}
    {value : String} (hleads : Leads p m i chain value) :
    ∃ chain', Leads q (σ m) i chain' value ∧
      chain'.map (·.edge.caller) = (chain.map (·.edge.caller)).map σ := by
  induction hleads with
  | literal hedge hpassed =>
    obtain ⟨n, hn⟩ := h.exists_position hedge
    exact ⟨[⟨n, _⟩], .literal hn (by rw [h.passed, hpassed]), rfl⟩
  | parameter hedge hpassed _ ih =>
    obtain ⟨n, hn⟩ := h.exists_position hedge
    obtain ⟨chain', hleads, hcallers⟩ := ih
    exact ⟨⟨n, _⟩ :: chain', .parameter hn (by rw [h.passed, hpassed]) hleads, by simp [hcallers]⟩

/-- A grounding chain is one under the other names too: distinct methods have distinct names, and
the chain is as long. -/
theorem Renames.groundingChain (h : Renames σ p q) {bound : DepthBound} {owner : MethodId} {i : Nat}
    {chain : List Link} {value : String} (hchain : GroundingChain p bound owner i chain value) :
    ∃ chain', GroundingChain q bound (σ owner) i chain' value := by
  obtain ⟨chain', hleads, hcallers⟩ := h.leads hchain.leads
  have hmethods : chainMethods (σ owner) chain' = (chainMethods owner chain).map σ := by
    rw [chainMethods, chainMethods, List.map_cons, List.map_dropLast, hcallers, List.map_dropLast,
      List.map_dropLast]
  have hlength : chain'.length = chain.length := by
    simpa using congrArg List.length hcallers
  refine ⟨chain', hleads, ?_, fun d hd => hlength ▸ hchain.bounded d hd⟩
  rw [hmethods]
  exact hchain.distinct.map σ.injective

/-- A parameter has a grounding chain under both names or under none. -/
theorem Renames.grounded_iff (h : Renames σ p q) (bound : DepthBound) (owner : MethodId) (i : Nat) :
    (∃ chain value, GroundingChain q bound (σ owner) i chain value) ↔
      ∃ chain value, GroundingChain p bound owner i chain value := by
  constructor
  · rintro ⟨chain, value, hchain⟩
    obtain ⟨chain', hchain'⟩ := h.symm.groundingChain hchain
    exact ⟨chain', value, by simpa using hchain'⟩
  · rintro ⟨chain, value, hchain⟩
    obtain ⟨chain', hchain'⟩ := h.groundingChain hchain
    exact ⟨chain', value, hchain'⟩

/-- How a value is known does not depend on the names of methods, and neither does a value that is
not traced. -/
theorem Renames.resolve (h : Renames σ p q) (bound : DepthBound) (owner : MethodId)
    (arg : Argument) :
    ((resolve q bound (σ owner) arg).provenance = .tracedRecursively ∧
      (resolve p bound owner arg).provenance = .tracedRecursively) ∨
    resolve q bound (σ owner) arg = resolve p bound owner arg := by
  cases arg with
  | literal | unsupported => exact .inr rfl
  | parameter i =>
    have hiff := h.grounded_iff bound owner i
    rcases resolve_parameter_cases q bound (σ owner) i with ⟨hq, hno⟩ | ⟨hq, hgrounded⟩
    · rcases resolve_parameter_cases p bound owner i with ⟨hp, -⟩ | ⟨-, hgrounded⟩
      · exact .inr (hq.trans hp.symm)
      · exact absurd (hiff.2 hgrounded) hno
    · rcases resolve_parameter_cases p bound owner i with ⟨-, hno⟩ | ⟨hp, -⟩
      · exact absurd (hiff.1 hgrounded) hno
      · exact .inl ⟨hq, hp⟩

end

end Resolution

end CryptoAudit
