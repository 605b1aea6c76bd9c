import Mathlib
import CryptoAudit.Proofs.Program.Consistency
import CryptoAudit.Proofs.Resolution.Chain

/-!
# Growing programs

Steps only add to a program: call sites stay where they are, and new edges come after the old ones
(`Program.Extends`). In the larger program the search may look at new branches before it comes to
the literal that it found in the smaller one. It may run into new cycles there, be cut off at the
depth bound, and remember other failures. None of this can hide the old literal: a grounding chain
consists of call sites and edges that are still there (`GroundingChain.of_extends`), and a parameter
with a grounding chain is resolved, if only to the literal of another chain that comes before it.
-/

namespace CryptoAudit

namespace Program

/-- The call sites of `p` are still found in `q`, and the edges into a method are still the first
ones. -/
structure Extends (p q : Program) : Prop where
  callSite?_eq : ∀ id site, p.callSite? id = some site → q.callSite? id = some site
  edgesInto_prefix : ∀ m, p.edgesInto m <+: q.edgesInto m

section
variable {p q r : Program}

theorem Extends.refl (p : Program) : p.Extends p :=
  ⟨fun _ _ h => h, fun _ => List.prefix_rfl⟩

theorem Extends.trans (hpq : p.Extends q) (hqr : q.Extends r) : p.Extends r where
  callSite?_eq id site h := hqr.callSite?_eq id site (hpq.callSite?_eq id site h)
  edgesInto_prefix m := (hpq.edgesInto_prefix m).trans (hqr.edgesInto_prefix m)

/-! ## Every step extends the program -/

/-- Methods may be added after those that there are, whatever their bodies. -/
theorem extends_of_methods_append {new : List Method} (hmethods : q.methods = p.methods ++ new)
    (hgraph : q.callGraph = p.callGraph) : p.Extends q := by
  refine ⟨fun id site hsite => ?_, fun m => ?_⟩
  · obtain ⟨m, sites, hm, hbody, hat⟩ := callSite?_eq_some_iff.1 hsite
    have hlt : id.method < p.methods.length := (List.getElem?_eq_some_iff.1 hm).1
    refine callSite?_eq_some_iff.2 ⟨m, sites, ?_, hbody, hat⟩
    rw [method?, hmethods, List.getElem?_append_left hlt]
    exact hm
  · rw [edgesInto, edgesInto, hgraph]

theorem extends_declareClass (p : Program) (name : String) (file : Option String) :
    p.Extends (p.declareClass name file) := by
  obtain ⟨hmethods, hgraph⟩ := Model.declareClass_methods p name file
  exact extends_of_methods_append (hmethods.trans (List.append_nil _).symm) hgraph

theorem extends_addMethod (p : Program) (d : Declaration) : p.Extends (p.addMethod d) := by
  obtain ⟨hmethods, hgraph⟩ := Model.addMethod_methods p d
  exact extends_of_methods_append hmethods hgraph

/-- Adding a call extends a program. -/
theorem extends_addCall? {caller : MethodId} {c : Call} {id : SiteId}
    (h : p.addCall? caller c = some (q, id)) : p.Extends q := by
  obtain ⟨m, site, hm, -, -, -, rfl⟩ := addCall?_eq_some h
  have hmethod := method?_set hm { m with body := some (m.body.getD [] ++ [site]) }
  refine ⟨fun id site' hsite => ?_, fun _ => List.prefix_rfl⟩
  obtain ⟨m', sites, hm', hbody, hat⟩ := callSite?_eq_some_iff.1 hsite
  by_cases heq : id.method = caller
  · -- the caller's call sites are the first ones of its new body
    obtain rfl : m' = m := by
      rw [heq, hm] at hm'
      exact (Option.some.inj hm').symm
    have hlt : id.index < sites.length := (List.getElem?_eq_some_iff.1 hat).1
    refine callSite?_eq_some_iff.2 ⟨_, _, (hmethod _).trans (if_pos heq), rfl, ?_⟩
    rw [hbody, Option.getD_some, List.getElem?_append_left hlt]
    exact hat
  · have hsame := (hmethod id.method).trans ((if_neg heq).trans hm')
    exact callSite?_eq_some_iff.2 ⟨m', sites, hsame, hbody, hat⟩

/-- Adding an edge extends a program. -/
theorem extends_addEdge (p : Program) (site : SiteId) (callee : MethodId) :
    p.Extends (p.addEdge site callee) := by
  refine ⟨fun _ _ h => h, fun m => ?_⟩
  have hedges : (p.addEdge site callee).edgesInto m = _ :=
    CallGraph.edgesInto_addEdge p.callGraph site callee m
  rw [hedges]
  exact List.prefix_append ..

/-- A step of a builder that succeeds extends a program. -/
theorem extends_run? {s : Step} (h : s.run? p = some q) : p.Extends q := by
  cases s with
  | declareClass name file =>
    cases h
    exact extends_declareClass p name file
  | addMethod d =>
    cases h
    exact extends_addMethod p d
  | addCall caller c =>
    obtain ⟨⟨q, id⟩, hcall, rfl⟩ := Option.map_eq_some_iff.1 h
    exact extends_addCall? hcall
  | addMethodCall caller callee arguments line =>
    obtain ⟨⟨q, id⟩, hcall, rfl⟩ := Option.map_eq_some_iff.1 h
    obtain ⟨m, r, -, hadded, rfl⟩ := addMethodCall?_eq_some hcall
    exact (extends_addCall? hadded).trans (extends_addEdge r id callee)
  | addEdge site callee =>
    cases h
    exact extends_addEdge p site callee

/-- A step of a builder extends a program, or leaves it as it is. -/
theorem extends_run (p : Program) (s : Step) : p.Extends (s.run p) := by
  rw [Step.run]
  cases h : s.run? p with
  | none => exact .refl p
  | some q => exact extends_run? h

/-- More steps extend what the first ones have built. -/
theorem extends_build_append (name : String) (steps more : List Step) :
    (build name steps).Extends (build name (steps ++ more)) := by
  rw [build, build, List.foldl_append]
  exact List.foldlRecOn more Step.run (.refl _) fun q h s _ => h.trans (extends_run q s)

end

end Program

namespace Resolution

open Program

/-! ## Chains are still there -/

section
variable {p q : Program} {bound : DepthBound} {owner m : MethodId} {i : Nat} {chain : List Link}
  {value : String}

/-- What an edge passes, it passes in the larger program too. -/
theorem passed_of_extends (h : p.Extends q) {edge : CallEdge} {a : Argument}
    (hpassed : (p.callSite? edge.site).bind (·.arguments[i]?) = some a) :
    (q.callSite? edge.site).bind (·.arguments[i]?) = some a := by
  obtain ⟨site, hsite, harg⟩ := Option.bind_eq_some_iff.1 hpassed
  exact Option.bind_eq_some_iff.2 ⟨site, h.callSite?_eq _ _ hsite, harg⟩

/-- An edge has the same position in the larger program. -/
theorem edge_of_extends (h : p.Extends q) {n : Nat} {edge : CallEdge}
    (hedge : (p.edgesInto m)[n]? = some edge) : (q.edgesInto m)[n]? = some edge := by
  obtain ⟨new, hnew⟩ := h.edgesInto_prefix m
  have hlt : n < (p.edgesInto m).length := (List.getElem?_eq_some_iff.1 hedge).1
  rw [← hnew, List.getElem?_append_left hlt]
  exact hedge

/-- A chain leads to its literal in the larger program too, through the same edges at the same
positions. -/
theorem Leads.of_extends (h : p.Extends q) (hleads : Leads p m i chain value) :
    Leads q m i chain value := by
  induction hleads with
  | literal hedge hpassed => exact .literal (edge_of_extends h hedge) (passed_of_extends h hpassed)
  | parameter hedge hpassed _ ih =>
    exact .parameter (edge_of_extends h hedge) (passed_of_extends h hpassed) ih

theorem GroundingChain.of_extends (h : p.Extends q)
    (hchain : GroundingChain p bound owner i chain value) :
    GroundingChain q bound owner i chain value :=
  ⟨hchain.leads.of_extends h, hchain.distinct, hchain.bounded⟩

/-- A larger program resolves what the smaller one resolves. -/
theorem isResolved_of_extends (h : p.Extends q) {arg : Argument}
    (hresolved : (resolve p bound owner arg).isResolved = true) :
    (resolve q bound owner arg).isResolved = true :=
  isResolved_of_groundingChain (fun _ chain value hchain => ⟨chain, value, hchain.of_extends h⟩)
    hresolved

end

/-- However a program goes on to be built, every argument that is resolved stays resolved, under the
same depth bound, though perhaps to another literal. The same holds of any program that keeps the
call sites and edges of another one, such as one with more methods that have call sites already. -/
theorem isResolved_build_append :
    (∀ (name : String) (steps more : List Step) (bound : DepthBound) (owner : MethodId)
      (arg : Argument), (resolve (build name steps) bound owner arg).isResolved = true →
        (resolve (build name (steps ++ more)) bound owner arg).isResolved = true) ∧
    ∀ p q : Program, p.Extends q → ∀ (bound : DepthBound) (owner : MethodId) (arg : Argument),
      (resolve p bound owner arg).isResolved = true →
        (resolve q bound owner arg).isResolved = true := by
  refine ⟨fun name steps more bound owner arg h => ?_, fun p q hpq bound owner arg h => ?_⟩
  · exact isResolved_of_extends (extends_build_append name steps more) h
  · exact isResolved_of_extends hpq h

/-- A digest that is called through a relay, which nothing calls, and with a literal. -/
def relaySteps : List Step :=
  [.addMethod ⟨"App", "digest", none, ["a"], true, true⟩,
    .addMethod ⟨"App", "relay", none, ["a"], true, true⟩,
    .addMethod ⟨"App", "run", none, [], true, true⟩,
    .addMethodCall 1 0 [.parameter 0] none,
    .addMethodCall 2 0 [.literal "SHA-1"] none]

/-- The digest calls the relay, and the relay is called with another literal. -/
def relayGrowth : List Step :=
  [.addMethodCall 0 1 [.parameter 0] none, .addMethodCall 2 1 [.literal "MD5"] none]

/-- The branch through the relay leads to a cycle and to another literal. The digest stays
resolved. -/
theorem isResolved_build_append_relay :
    resolve (build "app" relaySteps) (some 2) 0 (.parameter 0) =
      .traced "SHA-1" ["App.run", "App.digest"] ∧
    (resolve (build "app" (relaySteps ++ relayGrowth)) (some 2) 0 (.parameter 0)).isResolved =
      true ∧
    resolve (build "app" (relaySteps ++ relayGrowth)) (some 2) 0 (.parameter 0) =
      .traced "MD5" ["App.run", "App.relay", "App.digest"] := by
  have hfirst : resolve (build "app" relaySteps) (some 2) 0 (.parameter 0) =
      .traced "SHA-1" ["App.run", "App.digest"] := by cbv
  refine ⟨hfirst, ?_, by cbv⟩
  exact isResolved_build_append.1 "app" relaySteps relayGrowth (some 2) 0 (.parameter 0)
    (by rw [hfirst]; rfl)

end Resolution

end CryptoAudit
