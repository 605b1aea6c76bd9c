import Mathlib
import CryptoAudit.Proofs.Resolution.Chain

/-!
# The depth bound

Under a smaller depth bound the search goes another way: it gives up branches that it would follow
otherwise, it does not record their failure, and it may end with the literal of a later branch. So
the searches under two bounds are not compared move by move, but by the chains that they may find.

A wider bound has all grounding chains that a narrower one has (`GroundingChain.mono`), hence it
resolves whatever the narrower one resolves. The methods of a grounding chain are distinct, and all
of them exist if the owner does, so a chain is no longer than the program has methods
(`GroundingChain.length_le`). A bound that is not below this number rules out no chain, and the
first chain is then the same as without a bound.
-/

namespace CryptoAudit.Resolution

/-- A bound that allows at least the paths that `bound` allows. -/
def DepthBound.Le (bound wider : DepthBound) : Prop :=
  ∀ d', wider = some d' → ∃ d, bound = some d ∧ d ≤ d'

theorem DepthBound.le_none (bound : DepthBound) : bound.Le none := nofun

theorem DepthBound.some_le_some {d d' : Nat} (h : d ≤ d') : DepthBound.Le (some d) (some d') := by
  rintro _ ⟨⟩
  exact ⟨d, rfl, h⟩

section
variable {p : Program} {bound wider : DepthBound} {m owner : MethodId} {i : Nat}
  {chain : List Link} {value : String}

/-- A grounding chain is one under a wider bound too. -/
theorem GroundingChain.mono (h : GroundingChain p bound owner i chain value)
    (hle : bound.Le wider) : GroundingChain p wider owner i chain value := by
  refine ⟨h.leads, h.distinct, fun d' hd' => ?_⟩
  obtain ⟨d, hd, hdd'⟩ := hle d' hd'
  have hchain := h.bounded d hd
  omega

/-- The callers on a chain exist: a call site that passes something stands in a method. -/
theorem Leads.caller_lt (h : Leads p m i chain value) :
    ∀ link ∈ chain, link.edge.caller < p.methods.length := by
  induction h with
  | literal _ hpassed => exact List.forall_mem_singleton.2 (State.exists_of_passed hpassed)
  | parameter _ hpassed _ ih => exact List.forall_mem_cons.2 ⟨State.exists_of_passed hpassed, ih⟩

/-- A chain that is not empty goes through as many methods as it has edges. -/
theorem length_chainMethods (owner : MethodId) (h : chain ≠ []) :
    (chainMethods owner chain).length = chain.length := by
  have hpos : 0 < chain.length := List.length_pos_iff.2 h
  rw [chainMethods, List.length_cons, List.length_map, List.length_dropLast]
  omega

/-- A grounding chain of a method that exists is no longer than the program has methods. -/
theorem GroundingChain.length_le (h : GroundingChain p bound owner i chain value)
    (howner : owner < p.methods.length) : chain.length ≤ p.methods.length := by
  have hsub : chainMethods owner chain ⊆ List.range p.methods.length := by
    intro m hm
    rw [List.mem_range]
    rcases List.mem_cons.1 hm with rfl | hm
    · exact howner
    · obtain ⟨link, hlink, rfl⟩ := List.mem_map.1 hm
      exact h.leads.caller_lt link (List.dropLast_subset _ hlink)
  have hle := h.distinct.length_le_of_subset hsub
  rwa [length_chainMethods owner h.leads.ne_nil, List.length_range] at hle

/-- A bound that is not below the number of methods rules out no chain. -/
theorem groundingChain_some_iff {d : Nat} (howner : owner < p.methods.length)
    (hd : p.methods.length ≤ d) :
    GroundingChain p (some d) owner i chain value ↔ GroundingChain p none owner i chain value := by
  refine ⟨fun h => h.mono (DepthBound.le_none _), fun h => ⟨h.leads, h.distinct, ?_⟩⟩
  rintro _ ⟨⟩
  have hlength := h.length_le howner
  omega

end

/-- What is resolved under a bound is resolved under a wider one. -/
theorem isResolved_of_le {p : Program} {bound wider : DepthBound} {owner : MethodId}
    {arg : Argument} (hle : bound.Le wider) (h : (resolve p bound owner arg).isResolved = true) :
    (resolve p wider owner arg).isResolved = true :=
  isResolved_of_groundingChain (fun _ chain value hchain => ⟨chain, value, hchain.mono hle⟩) h

/-- Bounds with the same grounding chains have the same first chains, and so resolve alike. -/
theorem resolve_eq_of_groundingChain_iff {p : Program} {bound bound' : DepthBound}
    {owner : MethodId}
    (h : ∀ i chain value, GroundingChain p bound owner i chain value ↔
      GroundingChain p bound' owner i chain value) (arg : Argument) :
    resolve p bound owner arg = resolve p bound' owner arg := by
  cases arg with
  | literal | unsupported => rfl
  | parameter i =>
    rw [resolve, resolve]
    rcases traceParameter_cases p bound owner i with ⟨hnone, hno⟩ | ⟨chain, value, hfirst, hsome⟩
    · rcases traceParameter_cases p bound' owner i with ⟨hnone', -⟩ | ⟨chain, value, hfirst', -⟩
      · rw [hnone, hnone']
      · exact absurd ((h i chain value).2 hfirst'.grounds) (hno chain value)
    · rcases traceParameter_cases p bound' owner i with
        ⟨-, hno'⟩ | ⟨chain', value', hfirst', hsome'⟩
      · exact absurd ((h i chain value).1 hfirst.grounds) (hno' chain value)
      · have hother : FirstChain p bound owner i chain' value' :=
          ⟨(h i _ _).2 hfirst'.grounds, fun other w hw => hfirst'.first other w ((h i _ _).1 hw)⟩
        obtain ⟨rfl, rfl⟩ := hfirst.unique hother
        rw [hsome, hsome']

/-- What is resolved under a depth bound is resolved under every larger bound and without one. From
the number of methods on, a bound changes nothing: value, provenance and trace are those without a
bound, for every owner that is a method of the program. -/
theorem resolve_depth_monotone (p : Program) (owner : MethodId) (arg : Argument) :
    (∀ d, (resolve p (some d) owner arg).isResolved = true →
      (∀ d', d ≤ d' → (resolve p (some d') owner arg).isResolved = true) ∧
        (resolve p none owner arg).isResolved = true) ∧
    (owner < p.methods.length → ∀ d, p.methods.length ≤ d →
      resolve p (some d) owner arg = resolve p none owner arg) := by
  refine ⟨fun d h => ⟨fun d' hle => ?_, ?_⟩, fun howner d hd => ?_⟩
  · exact isResolved_of_le (DepthBound.some_le_some hle) h
  · exact isResolved_of_le (DepthBound.le_none _) h
  · exact resolve_eq_of_groundingChain_iff (fun _ _ _ => groundingChain_some_iff howner hd) arg

/-- A digest that is called with a literal, and before that through a wrapper, which is called with
another literal. -/
def wrappedDigest : Program where
  name := "wrapped"
  classes := [⟨"App", none, [0, 1, 2]⟩]
  methods := [
    ⟨0, "App.digest", "App", "digest", "digest(a)", ["a"], true, some []⟩,
    ⟨1, "App.wrap", "App", "wrap", "wrap(a)", ["a"], true,
      some [⟨1, 0, "App", "digest", [.parameter 0], none⟩]⟩,
    ⟨2, "App.run", "App", "run", "run()", [], true,
      some [⟨2, 0, "App", "digest", [.literal "SHA-1"], none⟩,
        ⟨2, 1, "App", "wrap", [.literal "MD5"], none⟩]⟩]
  callGraph := ⟨[[⟨⟨1, 0⟩, 0⟩, ⟨⟨2, 0⟩, 0⟩], [⟨⟨2, 1⟩, 1⟩]], 3⟩

/-- A bound that cuts off the wrapper leads to another literal. A larger one resolves the digest
too, and from three methods on the literal is that of the wrapper, as without a bound. -/
theorem resolve_depth_monotone_wrapped :
    resolve wrappedDigest (some 1) 0 (.parameter 0) =
      .traced "SHA-1" ["App.run", "App.digest"] ∧
    (resolve wrappedDigest (some 2) 0 (.parameter 0)).isResolved = true ∧
    resolve wrappedDigest (some 3) 0 (.parameter 0) =
      .traced "MD5" ["App.run", "App.wrap", "App.digest"] := by
  have hcut : resolve wrappedDigest (some 1) 0 (.parameter 0) =
      .traced "SHA-1" ["App.run", "App.digest"] := by cbv
  have hfull : resolve wrappedDigest none 0 (.parameter 0) =
      .traced "MD5" ["App.run", "App.wrap", "App.digest"] := by cbv
  obtain ⟨hmono, hequal⟩ := resolve_depth_monotone wrappedDigest 0 (.parameter 0)
  refine ⟨hcut, (hmono 1 (by rw [hcut]; rfl)).1 2 (by decide), ?_⟩
  rw [hequal (by decide) 3 (by decide), hfull]

/-- A program with one method, which calls itself and a method that does not exist. -/
def strayDigest : Program where
  name := "stray"
  classes := [⟨"App", none, [0]⟩]
  methods := [
    ⟨0, "App.run", "App", "run", "run(a)", ["a"], true,
      some [⟨0, 0, "App", "digest", [.parameter 0], none⟩,
        ⟨0, 1, "App", "run", [.literal "MD5"], none⟩]⟩]
  callGraph := ⟨[[⟨⟨0, 1⟩, 0⟩], [⟨⟨0, 0⟩, 1⟩]], 2⟩

-- An owner that is no method of the program can have a chain that is longer than there are methods.
example : resolve strayDigest (some 1) 1 (.parameter 0) = .unresolved ∧
    resolve strayDigest none 1 (.parameter 0) = .traced "MD5" ["App.run", "App.run"] := by
  constructor <;> cbv

end CryptoAudit.Resolution
