import Mathlib
import CryptoAudit.Scan
import CryptoAudit.Proofs.Rule.Index
import CryptoAudit.Proofs.Scan.CallChain

/-!
# Findings are true of executions

A finding whose algorithm is resolved names a value. In a program that has been lowered from models,
there is a chain of calls up to the call site of the finding such that every execution of the chain
passes this value for the algorithm (`lower_scanWithin_grounded`). A literal at the call site needs
no other calls; a traced value comes through the methods of the trace, in order.

Where a finding comes from is an `Occurrence`: a rule, a method and a call site of it. The findings
of a scan are those that are made at some occurrence (`mem_scanWithin_iff`).
-/

namespace CryptoAudit.Scan

open Model Resolution Execution

/-- A rule at a call site of a method. -/
structure Occurrence where
  rule : Rule
  method : Method
  /-- The position of the call site in the method. -/
  index : Nat
  site : CallSite

/-- A scan makes this finding at an occurrence. -/
structure MadeAt (p : Program) (rules : RuleSet) (bound : DepthBound) (o : Occurrence)
    (f : Finding) : Prop where
  method : o.method ∈ p.methodsInOrder
  site : o.method.analyzableBody.bind (·[o.index]?) = some o.site
  rule : o.rule ∈ rules.rules
  applies : o.rule.appliesTo o.site = true
  finding : f = Scan.finding o.rule o.method o.site (algorithmAt p bound o.method o.site o.rule)

/-- A chain of calls up to the call site of an occurrence by which its finding is true: in every
execution of the chain, the value that is passed for the algorithm is that of the finding. -/
structure GroundedBy (sources : List Source) (p : Program) (o : Occurrence) (f : Finding)
    (chain : List CallPoint) (last : CallPoint) : Prop where
  method : last.method = o.method.id
  site : ∃ b inv, bodyOf sources last.method = some b ∧
    b.invocations[o.index]? = some (last.statement, inv)
  callChain : CallChain sources p.methods (chain ++ [last])
  direct : f.provenance = .directConstant → chain = []
  traced : f.provenance = .tracedRecursively →
    f.trace.map some = (chain ++ [last]).map fun pt => (p.method? pt.method).map (·.qualifiedName)
  value : ∀ {V : Type} (text : String → V) (params : Nat → V) (args : List V),
    Runs text sources (chain ++ [last]) params args →
      args[o.rule.algorithmIndex]? = some (text f.algorithm)

section
variable {p : Program} {rules : RuleSet} {bound : DepthBound} {f : Finding}

/-- The call sites that are scanned are those at some position of the body. -/
theorem mem_analyzableBody_iff {method : Method} {site : CallSite} :
    site ∈ method.analyzableBody.getD [] ↔
      ∃ index : Nat, method.analyzableBody.bind (·[index]?) = some site := by
  cases method.analyzableBody with
  | none => simp
  | some sites => exact List.mem_iff_getElem?

/-- The findings of a scan are those that are made at some occurrence. -/
theorem mem_scanWithin_iff :
    f ∈ scanWithin p rules bound ↔ ∃ o, MadeAt p rules bound o f := by
  rw [scanWithin, List.mem_flatMap]
  constructor
  · rintro ⟨method, hmethod, hf⟩
    obtain ⟨site, hsite, hf⟩ := List.mem_flatMap.1 hf
    obtain ⟨index, hindex⟩ := mem_analyzableBody_iff.1 hsite
    obtain ⟨rule, hrule, rfl⟩ := List.mem_map.1 hf
    obtain ⟨hrule, happlies⟩ := RuleIndex.mem_matching_ofRules.1 hrule
    exact ⟨⟨rule, method, index, site⟩, hmethod, hindex, hrule, happlies, rfl⟩
  · rintro ⟨o, ho⟩
    refine ⟨o.method, ho.method, List.mem_flatMap.2 ⟨o.site, ?_, List.mem_map.2 ⟨o.rule, ?_, ?_⟩⟩⟩
    · exact mem_analyzableBody_iff.2 ⟨o.index, ho.site⟩
    · exact RuleIndex.mem_matching_ofRules.2 ⟨ho.rule, ho.applies⟩
    · exact ho.finding.symm

/-- What is known of an algorithm: nothing, the literal at the call site, or the literal that the
callers of the method pass for the parameter at the call site. -/
theorem algorithmAt_trichotomy (p : Program) (bound : DepthBound) (method : Method)
    (site : CallSite) (rule : Rule) :
    algorithmAt p bound method site rule = .unresolved ∨
    (∃ s, site.arguments[rule.algorithmIndex]? = some (.literal s) ∧
      algorithmAt p bound method site rule = .direct s) ∨
    ∃ i links value, site.arguments[rule.algorithmIndex]? = some (.parameter i) ∧
      GroundingChain p bound method.id i links value ∧
      algorithmAt p bound method site rule =
        .traced value (qualifiedNames p (chainTrace method.id links)) := by
  unfold algorithmAt
  cases site.arguments[rule.algorithmIndex]? with
  | none => exact .inl rfl
  | some arg =>
    cases arg with
    | literal s => exact .inr (.inl ⟨s, rfl, rfl⟩)
    | unsupported => exact .inl rfl
    | parameter i =>
      simp only [resolve]
      rcases traceParameter_cases p bound method.id i with
        ⟨hnone, -⟩ | ⟨links, value, hfirst, hsome⟩
      · rw [hnone]
        exact .inl rfl
      · rw [hsome]
        exact .inr (.inr ⟨i, links, value, rfl, hfirst.grounds, rfl⟩)

/-- An algorithm that is resolved is a literal at the call site, or a parameter whose callers lead
to a literal. -/
theorem algorithmAt_cases {method : Method} {site : CallSite} {rule : Rule}
    (h : (algorithmAt p bound method site rule).provenance ≠ .unresolved) :
    (∃ s, site.arguments[rule.algorithmIndex]? = some (.literal s) ∧
      algorithmAt p bound method site rule = .direct s) ∨
    ∃ i links value, site.arguments[rule.algorithmIndex]? = some (.parameter i) ∧
      GroundingChain p bound method.id i links value ∧
      algorithmAt p bound method site rule =
        .traced value (qualifiedNames p (chainTrace method.id links)) :=
  (algorithmAt_trichotomy p bound method site rule).resolve_left fun hnone =>
    h (congrArg ResolvedValue.provenance hnone)

/-- If all methods exist, none of them is left out of their names. -/
theorem qualifiedNames_map_some {ms : List MethodId} (h : ∀ m ∈ ms, (p.method? m).isSome) :
    (qualifiedNames p ms).map some = ms.map fun m => (p.method? m).map (·.qualifiedName) := by
  induction ms with
  | nil => rfl
  | cons m ms ih =>
    obtain ⟨method, hm⟩ := Option.isSome_iff_exists.1 (h m (List.mem_cons_self ..))
    have hrest := ih fun m' hm' => h m' (List.mem_cons_of_mem _ hm')
    simp only [qualifiedNames] at hrest
    simp [qualifiedNames, hm, hrest]

end

section
variable {name : String} {sources : List Source} {p : Program} {rules : RuleSet}
  {bound : DepthBound} {o : Occurrence} {f : Finding}

/-- The methods of a chain of calls exist. -/
theorem isSome_method?_of_callChain (h : lower name sources = .ok p) {pts : List CallPoint}
    (hchain : CallChain sources p.methods pts) :
    ∀ m ∈ pts.map (·.method), (p.method? m).isSome := by
  have hexists : ∀ {pt b inv}, CallsAt sources pt b inv → (p.method? pt.method).isSome := by
    intro pt b inv hcall
    obtain ⟨e, he, -⟩ := bodyOf_eq_some_iff.1 hcall.body
    rw [lower_method? h, he]
    rfl
  induction hchain with
  | last hcall => exact List.forall_mem_singleton.2 (hexists hcall)
  | call hcall _ _ ih => exact List.forall_mem_cons.2 ⟨hexists hcall, ih⟩

/-- A finding carries what is known of the algorithm. -/
theorem MadeAt.resolvedValue (ho : MadeAt p rules bound o f) :
    ⟨f.algorithm, f.provenance, f.trace⟩ = algorithmAt p bound o.method o.site o.rule := by
  rw [ho.finding]
  rfl

/-- The call from which the call site of an occurrence comes. -/
structure CalledFrom (sources : List Source) (o : Occurrence) (last : CallPoint) (b : Body)
    (inv : Invocation) : Prop where
  method : last.method = o.method.id
  body : bodyOf sources last.method = some b
  invocation : b.invocations[o.index]? = some (last.statement, inv)
  arguments : o.site.arguments = knownArguments b last.statement inv

theorem CalledFrom.callsAt {last : CallPoint} {b : Body} {inv : Invocation}
    (h : CalledFrom sources o last b inv) : CallsAt sources last b inv :=
  .of_invocation h.body h.invocation

/-- The call site of an occurrence comes from a call of its method. -/
theorem MadeAt.calledFrom (ho : MadeAt p rules bound o f) (h : lower name sources = .ok p) :
    ∃ last b inv, CalledFrom sources o last b inv := by
  obtain ⟨i, -, hi⟩ := List.mem_filterMap.1 ho.method
  have hsite : p.callSite? ⟨i, o.index⟩ = some o.site := by
    obtain ⟨sites, hsites, hindex⟩ := Option.bind_eq_some_iff.1 ho.site
    have hbody : o.method.body = some sites := by
      unfold Method.analyzableBody at hsites
      split at hsites
      · exact hsites
      · cases hsites
    simp [Program.callSite?, hi, hbody, hindex]
  have hid : o.method.id = i := by
    rw [lower_method? h, Option.map_eq_some_iff] at hi
    obtain ⟨e, -, hmethod⟩ := hi
    rw [← hmethod]
    rfl
  obtain ⟨file, b, ⟨statement, inv⟩, hbody, hcall, hargs⟩ := callSite?_lower h hsite
  exact ⟨⟨i, statement⟩, b, inv, hid.symm, hbody, hcall, congrArg CallSite.arguments hargs⟩

section
variable {last : CallPoint} {b : Body} {inv : Invocation}

/-- A literal at the call site is passed by every execution of the call. -/
theorem CalledFrom.grounded_literal (hfrom : CalledFrom sources o last b inv) {s : String}
    (harg : o.site.arguments[o.rule.algorithmIndex]? = some (.literal s))
    (hknown : ⟨f.algorithm, f.provenance, f.trace⟩ = ResolvedValue.direct s) :
    GroundedBy sources p o f [] last := by
  obtain ⟨rfl, hdirect, -⟩ := ResolvedValue.mk.inj hknown
  have hcall := hfrom.callsAt
  refine ⟨hfrom.method, ⟨b, inv, hfrom.body, hfrom.invocation⟩, .last hcall, fun _ => rfl, ?_, ?_⟩
  · intro htraced
    cases hdirect.symm.trans htraced
  · intro V text params args hruns
    obtain ⟨v, hv, rfl⟩ := hruns.last_denotes hcall (hfrom.arguments ▸ harg)
    exact hv

/-- A literal to which a parameter leads is passed by every execution of the calls of its chain. -/
theorem CalledFrom.grounded_leads (hfrom : CalledFrom sources o last b inv)
    (h : lower name sources = .ok p) {i : Nat} {links : List Link} {value : String}
    (harg : o.site.arguments[o.rule.algorithmIndex]? = some (.parameter i))
    (hchain : GroundingChain p bound o.method.id i links value)
    (hknown : ⟨f.algorithm, f.provenance, f.trace⟩ =
      ResolvedValue.traced value (qualifiedNames p (chainTrace o.method.id links))) :
    ∃ chain, GroundedBy sources p o f chain last := by
  obtain ⟨rfl, htraced, htrace⟩ := ResolvedValue.mk.inj hknown
  obtain ⟨chain, hmethods, hdelivers⟩ := delivers_of_leads h hchain.leads
  have hcall := hfrom.callsAt
  have hcalls := hdelivers.callChain hfrom.method (.last hcall)
  refine ⟨chain, hfrom.method, ⟨b, inv, hfrom.body, hfrom.invocation⟩, hcalls, ?_, fun _ => ?_, ?_⟩
  · intro hdirect
    cases htraced.symm.trans hdirect
  · have hall : chainTrace o.method.id links = (chain ++ [last]).map (·.method) := by
      simp [chainTrace, hmethods, hfrom.method]
    have hexist := isSome_method?_of_callChain h hcalls
    rw [htrace, hall, qualifiedNames_map_some hexist, List.map_map]
    rfl
  · intro V text params args hruns
    -- The chain delivers the literal to parameter `i`, and the last call passes this parameter on.
    obtain ⟨params', hparam, hruns⟩ := hdelivers.value hruns
    obtain ⟨v, hv, hdenotes⟩ := hruns.last_denotes hcall (hfrom.arguments ▸ harg)
    rw [hv, ← hparam]
    exact congrArg some hdenotes

end

/-- The findings of a scan are made at occurrences. Where the algorithm of a finding is resolved,
there is a chain of calls up to its call site of which every execution passes this algorithm. -/
theorem lower_scanWithin_grounded (h : lower name sources = .ok p) (rules : RuleSet)
    (bound : DepthBound) (f : Finding) :
    (f ∈ scanWithin p rules bound ↔ ∃ o, MadeAt p rules bound o f) ∧
      ∀ o, MadeAt p rules bound o f →
        f.provenance = .directConstant ∨ f.provenance = .tracedRecursively →
          ∃ chain last, GroundedBy sources p o f chain last := by
  refine ⟨mem_scanWithin_iff, fun o ho hresolved => ?_⟩
  obtain ⟨last, b, inv, hfrom⟩ := ho.calledFrom h
  have hknown := ho.resolvedValue
  have halgorithm : (algorithmAt p bound o.method o.site o.rule).provenance ≠ .unresolved := by
    rw [← hknown]
    rcases hresolved with hf | hf <;> simp [hf]
  rcases algorithmAt_cases halgorithm with
    ⟨s, harg, hvalue⟩ | ⟨i, links, value, harg, hleads, hvalue⟩
  · exact ⟨[], last, hfrom.grounded_literal harg (hknown.trans hvalue)⟩
  · obtain ⟨chain, hchain⟩ := hfrom.grounded_leads h harg hleads (hknown.trans hvalue)
    exact ⟨chain, last, hchain⟩

end

/-- The call of a wrapper, in a loop. -/
def wrapperCall : Invocation := ⟨"App", "digest", [.other, .local "name"], none, none, none⟩

def callerBody : Body where
  statements := [.assign "name" (.literal "MD5"), .invoke wrapperCall]
  successors := some [[1], [0, 1]]

/-- The call that a wrapper makes, with one of its parameters. -/
def digestCall : Invocation :=
  ⟨"MessageDigest", "getInstance", [.local "a"], some "d", none, none⟩

def wrapperBody : Body where
  statements := [.assign "a" (.parameter 1), .invoke digestCall]
  successors := none

/-- A method that passes a literal to a wrapper. -/
def wrappedSources : List Source :=
  [⟨"wrapped.json", ⟨none, [⟨"App", none, [
    ⟨"run", none, [], true, some callerBody⟩,
    ⟨"digest", none, ["data", "algorithm"], true, some wrapperBody⟩]⟩]⟩⟩]

/-- The program of `wrappedSources`. -/
def wrappedProgram : Program where
  name := "wrapped"
  classes := [⟨"App", none, [0, 1]⟩]
  methods := [
    ⟨0, "App.run", "App", "run", "run()", [], true,
      some [⟨0, 0, "App", "digest", [.unsupported, .literal "MD5"], none⟩]⟩,
    ⟨1, "App.digest", "App", "digest", "digest(data, algorithm)", ["data", "algorithm"], true,
      some [⟨1, 0, "MessageDigest", "getInstance", [.parameter 1], none⟩]⟩]
  callGraph := ⟨[[], [⟨⟨0, 0⟩, 1⟩]], 1⟩

/-- A rule that watches the call in `wrappedSources`. -/
def digestRules : RuleSet :=
  ⟨[⟨"digest", "Digest", "MessageDigest", "getInstance", 0, none, none, .high, "", none⟩]⟩

/-- The algorithm of the digest is found through the wrapper, and the calls do run. -/
theorem lower_scanWithin_grounded_wrapped :
    lower "wrapped" wrappedSources = .ok wrappedProgram ∧
      (∃ f ∈ scanWithin wrappedProgram digestRules none,
        f.provenance = .tracedRecursively ∧ f.algorithm = "MD5" ∧
        ∃ o chain last, MadeAt wrappedProgram digestRules none o f ∧
          GroundedBy wrappedSources wrappedProgram o f chain last) ∧
      ∃ args : List String, Runs id wrappedSources [⟨0, 1⟩, ⟨1, 1⟩] (fun _ => "") args := by
  have hlower : lower "wrapped" wrappedSources = .ok wrappedProgram := by cbv
  have hscan : (scanWithin wrappedProgram digestRules none).map
      (fun f => (f.provenance, f.algorithm)) = [(.tracedRecursively, "MD5")] := by cbv
  refine ⟨hlower, ?_, ?_⟩
  · obtain ⟨f, hf, hfields⟩ := List.map_eq_singleton_iff.1 hscan
    obtain ⟨hprovenance, halgorithm⟩ := Prod.mk.inj hfields
    have hmem : f ∈ scanWithin wrappedProgram digestRules none := hf ▸ List.mem_singleton_self f
    obtain ⟨hmade, hgrounded⟩ := lower_scanWithin_grounded hlower digestRules none f
    obtain ⟨o, ho⟩ := hmade.1 hmem
    obtain ⟨chain, last, hchain⟩ := hgrounded o ho (.inr hprovenance)
    exact ⟨f, hmem, hprovenance, halgorithm, o, chain, last, ho, hchain⟩
  · have hcaller : Passes id (fun _ => "") callerBody 1 wrapperCall ["", "MD5"] :=
      ⟨store (fun _ => "") "name" "MD5",
        .step (.start _) rfl (.assign "name" (.literal "MD5")) (List.mem_singleton_self 1),
        .cons (.other "") (.cons (.local "name") .nil)⟩
    have hwrapper : Passes id (["", "MD5"].getD · "") wrapperBody 1 digestCall ["MD5"] :=
      ⟨store (fun _ => "") "a" "MD5",
        .step (.start _) rfl (.assign "a" (.parameter 1)) (List.mem_singleton_self 1),
        .cons (.local "a") .nil⟩
    refine ⟨["MD5"], .call ⟨rfl, rfl⟩ hcaller ?_ (.last ⟨rfl, rfl⟩ hwrapper)⟩
    intro k v hv
    rw [List.getD_eq_getElem?_getD, hv, Option.getD_some]

end CryptoAudit.Scan
