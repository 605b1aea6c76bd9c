import Mathlib
import CryptoAudit.Proofs.Program.Consistency
import CryptoAudit.Proofs.Scan.Soundness

/-!
# What the fields of a finding say of one another

How the algorithm of a finding is known determines what its other fields hold (`Accounted`). An
algorithm that is not resolved is empty, has no trace and is not flagged, even by a pattern that
matches the empty text. A direct constant is the literal at the call site. A traced algorithm has a
trace of two names or more, and of no more than one above the depth bound (`Traces`): the names of
methods that each have a call site with an edge to the next one, up to the method of the call site
(`Relay`).

The methods of a trace are those of a grounding chain. A chain is followed back from the owner, edge
by edge, so a relay grows at its end (`Relay.concat`). In a program that has been lowered from
models the ends of all edges exist, so that no method of a chain is missing in the trace
(`exists_relay_of_leads`).
-/

namespace CryptoAudit.Scan

open Model Resolution

/-- A call site of `m` has an edge to `n`. -/
def Calls (p : Program) (m n : Method) : Prop :=
  ∃ index site, m.body.bind (·[index]?) = some site ∧
    (⟨⟨m.id, index⟩, n.id⟩ : CallEdge) ∈ p.edgesInto n.id

/-- Methods that hand a value on to `owner`: each of them calls the next one. -/
structure Relay (p : Program) (owner : Method) (methods : List Method) : Prop where
  exist : ∀ m ∈ methods, m ∈ p.methods
  calls : methods.IsChain (Calls p)
  last : methods.getLast? = some owner

/-- The names of a trace up to `owner`: those of two methods or more that hand a value on, and of no
more than one above the bound. -/
structure Traces (p : Program) (bound : DepthBound) (owner : Method) (names : List String) :
    Prop where
  two_le : 2 ≤ names.length
  within : ∀ d, bound = some d → names.length ≤ d + 1
  relay : ∃ methods, Relay p owner methods ∧ names = methods.map (·.qualifiedName)

/-- The fields of a finding that is made at an occurrence fit how its algorithm is known. -/
inductive Accounted (p : Program) (bound : DepthBound) (o : Occurrence) (f : Finding) : Prop
  | unresolved (provenance : f.provenance = .unresolved) (algorithm : f.algorithm = "")
      (trace : f.trace = []) (flagged : f.flagged = false)
  | direct (provenance : f.provenance = .directConstant) (trace : f.trace = [])
      (literal : o.site.arguments[o.rule.algorithmIndex]? = some (.literal f.algorithm))
  | traced (provenance : f.provenance = .tracedRecursively)
      (traces : Traces p bound o.method f.trace)

/-! ## Relays -/

section
variable {p : Program} {c owner : Method} {methods : List Method}

theorem Relay.single (h : owner ∈ p.methods) : Relay p owner [owner] :=
  ⟨List.forall_mem_singleton.2 h, .singleton owner, rfl⟩

/-- A method that is called by the last one of a relay may follow it. -/
theorem Relay.concat (h : Relay p c methods) (howner : owner ∈ p.methods)
    (hcalls : Calls p c owner) : Relay p owner (methods ++ [owner]) := by
  refine ⟨?_, List.isChain_append.2 ⟨h.calls, .singleton owner, ?_⟩, List.getLast?_concat⟩
  · rw [List.forall_mem_append, List.forall_mem_singleton]
    exact ⟨h.exist, howner⟩
  · intro m hm n hn
    rw [h.last, Option.mem_some_iff] at hm
    rw [List.head?_singleton, Option.mem_some_iff] at hn
    rwa [← hm, ← hn]

end

/-- The first edge of a chain is the last that its value passes through. -/
theorem chainTrace_cons (m : MethodId) (link : Link) (links : List Link) :
    chainTrace m (link :: links) = chainTrace link.edge.caller links ++ [m] := by
  simp [chainTrace]

section
variable {name : String} {sources : List Source} {p : Program}

/-- No name is missing in the trace of a relay. -/
theorem Relay.qualifiedNames_eq {owner : Method} {methods : List Method}
    (h : Relay p owner methods) (hp : p.Consistent) :
    qualifiedNames p (methods.map (·.id)) = methods.map (·.qualifiedName) := by
  have hfound : ∀ m ∈ methods, (p.method? m.id).map (·.qualifiedName) = some m.qualifiedName := by
    intro m hm
    obtain ⟨i, hi⟩ := List.mem_iff_getElem?.1 (h.exist m hm)
    rw [hp.id_eq i m hi]
    exact congrArg (Option.map _) hi
  rw [qualifiedNames, List.filterMap_map, ← List.filterMap_eq_map]
  exact List.filterMap_congr hfound

/-- The call site of an edge stands in a method that calls the one into which the edge leads. -/
theorem exists_calls_of_edge (h : lower name sources = .ok p) {owner : Method} {edge : CallEdge}
    (hedge : edge ∈ p.edgesInto owner.id) :
    ∃ c ∈ p.methods, c.id = edge.caller ∧ Calls p c owner := by
  have hconsistent := consistent_of_lower h
  obtain ⟨⟨site, hsite⟩, -⟩ := exists_ends_of_lower h hedge
  obtain ⟨c, sites, hc, hbody, hindex⟩ := Program.callSite?_eq_some_iff.1 hsite
  have hcaller : c.id = edge.site.method := hconsistent.id_eq _ _ hc
  have hcallee : edge.callee = owner.id := hconsistent.callee_eq _ edge hedge
  have heq : (⟨⟨c.id, edge.site.index⟩, owner.id⟩ : CallEdge) = edge := by rw [hcaller, ← hcallee]
  refine ⟨c, List.mem_of_getElem? hc, hcaller, edge.site.index, site, ?_, ?_⟩
  · rw [hbody]
    exact hindex
  · rw [heq]
    exact hedge

/-- The methods of a chain that leads to a literal are a relay to its owner. -/
theorem exists_relay_of_leads (h : lower name sources = .ok p) {m : MethodId} {i : Nat}
    {links : List Link} {value : String} (hleads : Leads p m i links value) {owner : Method}
    (howner : owner ∈ p.methods) (hm : owner.id = m) :
    ∃ methods, Relay p owner methods ∧ methods.map (·.id) = chainTrace m links := by
  induction hleads generalizing owner with
  | literal hedge hpassed =>
    subst hm
    obtain ⟨c, hc, hcaller, hcalls⟩ := exists_calls_of_edge h (List.mem_of_getElem? hedge)
    refine ⟨[c] ++ [owner], (Relay.single hc).concat howner hcalls, ?_⟩
    rw [chainTrace_cons, List.map_append, ← hcaller]
    rfl
  | parameter hedge hpassed _ ih =>
    subst hm
    obtain ⟨c, hc, hcaller, hcalls⟩ := exists_calls_of_edge h (List.mem_of_getElem? hedge)
    -- the rest of the chain starts at the caller, so its relay ends there
    obtain ⟨methods, hrelay, hmethods⟩ := ih hc hcaller
    refine ⟨methods ++ [owner], hrelay.concat howner hcalls, ?_⟩
    rw [chainTrace_cons, List.map_append, hmethods]
    rfl

/-- There is no bound that lets no method on a path. -/
theorem pos_of_depthBound {settings : AnalysisSettings} {d : Nat}
    (h : settings.depthBound = some d) : 0 < d := by
  unfold AnalysisSettings.depthBound at h
  split at h
  next => cases h
  next hne =>
    cases h
    exact Nat.pos_of_ne_zero hne

/-- A grounding chain has a link for each name of its trace but the last. -/
theorem traces_of_groundingChain (h : lower name sources = .ok p) {settings : AnalysisSettings}
    {owner : Method} (howner : owner ∈ p.methods) {i : Nat} {links : List Link} {value : String}
    (hchain : GroundingChain p settings.depthBound owner.id i links value) :
    Traces p settings.depthBound owner (qualifiedNames p (chainTrace owner.id links)) := by
  obtain ⟨methods, hrelay, hmethods⟩ := exists_relay_of_leads h hchain.leads howner rfl
  have hnames : qualifiedNames p (chainTrace owner.id links) = methods.map (·.qualifiedName) := by
    rw [← hmethods, hrelay.qualifiedNames_eq (consistent_of_lower h)]
  have hlength : (qualifiedNames p (chainTrace owner.id links)).length = links.length + 1 := by
    rw [hnames, List.length_map, ← List.length_map (·.id), hmethods]
    simp [chainTrace]
  refine ⟨?_, fun d hd => ?_, methods, hrelay, hnames⟩
  · have hlinks : 0 < links.length := List.length_pos_iff.2 hchain.leads.ne_nil
    omega
  · have hbounded := hchain.bounded d hd
    have hpositive := pos_of_depthBound hd
    omega

end

/-! ## Findings -/

section
variable {name : String} {sources : List Source} {p : Program} {rules : RuleSet}
  {settings : AnalysisSettings} {bound : DepthBound} {o : Occurrence} {f : Finding}

/-- Only an algorithm that is resolved is looked at by the pattern of the rule. -/
theorem MadeAt.flagged_eq (ho : MadeAt p rules bound o f) :
    f.flagged = ((algorithmAt p bound o.method o.site o.rule).isResolved &&
      o.rule.matchesAlgorithm (algorithmAt p bound o.method o.site o.rule).value) := by
  rw [ho.finding]
  rfl

theorem MadeAt.method_mem (ho : MadeAt p rules bound o f) : o.method ∈ p.methods := by
  obtain ⟨i, -, hi⟩ := List.mem_filterMap.1 ho.method
  exact List.mem_of_getElem? hi

/-- Every finding of a scan is made at an occurrence, and wherever it is made its fields fit how its
algorithm is known. -/
theorem lower_scanProgram_accounted (h : lower name sources = .ok p) (rules : RuleSet)
    (settings : AnalysisSettings) (hf : f ∈ scanProgram p rules settings) :
    (∃ o, MadeAt p rules settings.depthBound o f) ∧
      ∀ o, MadeAt p rules settings.depthBound o f → Accounted p settings.depthBound o f := by
  refine ⟨mem_scanWithin_iff.1 hf, fun o ho => ?_⟩
  have hknown := ho.resolvedValue
  rcases algorithmAt_trichotomy p settings.depthBound o.method o.site o.rule with
    hvalue | ⟨s, harg, hvalue⟩ | ⟨i, links, value, -, hchain, hvalue⟩
  · obtain ⟨halgorithm, hprovenance, htrace⟩ := ResolvedValue.mk.inj (hknown.trans hvalue)
    have hflagged : f.flagged = false := by
      rw [ho.flagged_eq, hvalue]
      rfl
    exact .unresolved hprovenance halgorithm htrace hflagged
  · obtain ⟨halgorithm, hprovenance, htrace⟩ := ResolvedValue.mk.inj (hknown.trans hvalue)
    exact .direct hprovenance htrace (halgorithm ▸ harg)
  · obtain ⟨-, hprovenance, htrace⟩ := ResolvedValue.mk.inj (hknown.trans hvalue)
    exact .traced hprovenance (htrace ▸ traces_of_groundingChain h ho.method_mem hchain)

end

/-- A literal that goes through two calls, one at the call site, and an argument that is neither a
literal nor a parameter. -/
def relayedSources : List Source :=
  [⟨"relayed.json", ⟨none, [⟨"App", none, [
    ⟨"main", none, [], true,
      some ⟨[.invoke ⟨"App", "run", [.literal "MD5"], none, none, none⟩], none⟩⟩,
    ⟨"run", none, ["name"], true,
      some ⟨[.invoke ⟨"App", "digest", [.other, .parameter 0], none, none, none⟩], none⟩⟩,
    ⟨"digest", none, ["data", "algorithm"], true, some wrapperBody⟩,
    ⟨"plain", none, [], true,
      some ⟨[.invoke ⟨"MessageDigest", "getInstance", [.literal "SHA-1"], none, none, none⟩],
        none⟩⟩,
    ⟨"stray", none, [], true,
      some ⟨[.invoke ⟨"MessageDigest", "getInstance", [.other], none, none, none⟩],
        none⟩⟩]⟩]⟩⟩]

/-- The program of `relayedSources`. -/
def relayedProgram : Program where
  name := "relayed"
  classes := [⟨"App", none, [0, 1, 2, 3, 4]⟩]
  methods := [
    ⟨0, "App.main", "App", "main", "main()", [], true,
      some [⟨0, 0, "App", "run", [.literal "MD5"], none⟩]⟩,
    ⟨1, "App.run", "App", "run", "run(name)", ["name"], true,
      some [⟨1, 0, "App", "digest", [.unsupported, .parameter 0], none⟩]⟩,
    ⟨2, "App.digest", "App", "digest", "digest(data, algorithm)", ["data", "algorithm"], true,
      some [⟨2, 0, "MessageDigest", "getInstance", [.parameter 1], none⟩]⟩,
    ⟨3, "App.plain", "App", "plain", "plain()", [], true,
      some [⟨3, 0, "MessageDigest", "getInstance", [.literal "SHA-1"], none⟩]⟩,
    ⟨4, "App.stray", "App", "stray", "stray()", [], true,
      some [⟨4, 0, "MessageDigest", "getInstance", [.unsupported], none⟩]⟩]
  callGraph := ⟨[[], [⟨⟨0, 0⟩, 1⟩], [⟨⟨1, 0⟩, 2⟩]], 2⟩

/-- A rule whose pattern matches every text, the empty one too. -/
def anyDigest : Rule :=
  ⟨"any", "Digest", "MessageDigest", "getInstance", 0, none, some "", .high, "", some .empty⟩

/-- Findings of all three kinds. With two methods on a path the trace has three names, and the
unresolved algorithm is not flagged by a pattern that matches it. -/
theorem lower_scanProgram_accounted_relayed :
    lower "relayed" relayedSources = .ok relayedProgram ∧
      anyDigest.matchesAlgorithm "" = true ∧
      (scanProgram relayedProgram ⟨[anyDigest]⟩ ⟨2, true⟩).map
          (fun f => (f.provenance, f.algorithm, f.trace, f.flagged)) =
        [(.tracedRecursively, "MD5", ["App.main", "App.run", "App.digest"], true),
          (.directConstant, "SHA-1", [], true), (.unresolved, "", [], false)] ∧
      ∀ f ∈ scanProgram relayedProgram ⟨[anyDigest]⟩ ⟨2, true⟩,
        ∃ o, MadeAt relayedProgram ⟨[anyDigest]⟩ (some 2) o f ∧
          Accounted relayedProgram (some 2) o f := by
  have hlower : lower "relayed" relayedSources = .ok relayedProgram := by cbv
  refine ⟨hlower, by cbv, by cbv, fun f hf => ?_⟩
  obtain ⟨⟨o, ho⟩, haccounted⟩ := lower_scanProgram_accounted hlower ⟨[anyDigest]⟩ ⟨2, true⟩ hf
  exact ⟨o, ho, haccounted o ho⟩

end CryptoAudit.Scan
