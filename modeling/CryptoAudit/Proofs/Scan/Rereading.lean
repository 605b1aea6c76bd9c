import Mathlib
import CryptoAudit.Proofs.Dataflow.Paths
import CryptoAudit.Proofs.Model.Encoding
import CryptoAudit.Proofs.Program.Consistency
import CryptoAudit.Proofs.Program.RoundTrip
import CryptoAudit.Scan

/-!
# Scanning a program that was stored

A program that is written as JSON and read again has the same findings as before, because it is the
same program (`scanProgram_reread`). For a program that comes from models, no more is asked for than
that the numbers in the models are in range and that methods, call sites and edges can be numbered
with 64 bits (`Program.Numbered`).

Lowering makes up no numbers: the lines are those of the models, and a parameter that constant
propagation finds stands in some operand of the body (`inRange_lowerOperand`). All other numbers are
positions in lists of the program, since its parts fit together (`inRange_of_lower`).
-/

namespace CryptoAudit

/-! ## Constant propagation -/

/-- What a statement in range gives to a local is in range. -/
theorem Statement.InRange.source {stmt : Statement} (h : stmt.InRange) (x : String) :
    (stmt.source x).InRange := by
  cases stmt with
  | assign y value =>
    rw [Statement.source]
    split
    · exact h
    · trivial
  | invoke inv =>
    rw [Statement.source]
    split <;> trivial
  | nop => trivial

namespace Facts

/-- The locals are bound to values in range. -/
def InRange (facts : Facts) : Prop :=
  ∀ (x : String) (v : Argument), facts[x]? = some v → v.InRange

section
variable {facts : Facts}

/-- What facts in range tell about an operand in range is in range. -/
theorem InRange.eval (h : facts.InRange) {op : Operand} (hop : op.InRange) {v : Argument}
    (hv : facts.eval op = some v) : v.InRange := by
  cases op with
  | literal s =>
    cases hv
    trivial
  | parameter i =>
    cases hv
    exact hop
  | «local» x => exact h x v hv
  | other => cases hv

/-- A statement in range keeps facts in range. -/
theorem InRange.transfer (h : facts.InRange) {stmt : Statement} (hstmt : stmt.InRange) :
    (facts.transfer stmt).InRange := by
  intro x v hv
  rw [getElem?_transfer] at hv
  exact h.eval (hstmt.source x) hv

end

end Facts

namespace Dataflow

section
variable {b : Body}

/-- Along any walk through a body in range, the facts are in range. -/
theorem inRange_factsAlong (h : b.InRange) (visited : List Nat) :
    (factsAlong b visited).InRange := by
  induction visited using List.reverseRecOn with
  | nil =>
    intro x v hv
    simp [factsAlong] at hv
  | append_singleton visited i ih =>
    rw [factsAlong_concat]
    cases hi : b.statements[i]? with
    | none =>
      rw [transferAt, hi]
      exact ih
    | some stmt =>
      rw [transferAt_eq hi]
      exact ih.transfer (h.statements stmt (List.mem_of_getElem? hi))

/-- What is known before a statement holds along a walk to it. -/
theorem inRange_factsBefore (h : b.InRange) {i : Nat} {facts : Facts}
    (hfacts : factsBefore (propagate b) i = some facts) : facts.InRange := by
  obtain ⟨visited, hwalk⟩ := (covers_factsBefore hfacts).reached
  obtain ⟨found, hfound, hwithin⟩ := within_factsAlong hwalk
  rw [factsBefore_propagate, hfound] at hfacts
  cases hfacts
  intro x v hv
  exact inRange_factsAlong h visited x v (hwithin x v hv)

/-- An operand of a body in range is lowered to an argument in range. -/
theorem inRange_lowerOperand (h : b.InRange) (i : Nat) {op : Operand} (hop : op.InRange) :
    (lowerOperand (propagate b) i op).InRange := by
  cases op with
  | literal | other => trivial
  | parameter k => exact hop
  | «local» x =>
    rw [lowerOperand]
    cases hvalue : (factsBefore (propagate b) i).bind (·[x]?) with
    | none => trivial
    | some v =>
      obtain ⟨facts, hfacts, hx⟩ := Option.bind_eq_some_iff.1 hvalue
      exact inRange_factsBefore h hfacts x v hx

end

end Dataflow

/-! ## Lowered programs -/

namespace Program

/-- The methods, the call sites of each method and the edges can be numbered with 64 bits. -/
structure Numbered (p : Program) : Prop where
  methods : p.methods.length ≤ 0x10000000000000000
  sites : ∀ m ∈ p.methods, ∀ sites, m.body = some sites → sites.length ≤ 0x10000000000000000
  edges : p.callGraph.edgeCount < 0x10000000000000000

section
variable {p : Program}

theorem Numbered.lt_of_method? (h : p.Numbered) {i : MethodId} {m : Method}
    (hm : p.method? i = some m) : i < 0x10000000000000000 :=
  Nat.lt_of_lt_of_le (List.getElem?_eq_some_iff.1 hm).1 h.methods

/-- The names of call sites are in range, if the program is not too large. -/
theorem Numbered.inRange_of_callSite? (h : p.Numbered) {id : SiteId} {site : CallSite}
    (hsite : p.callSite? id = some site) : id.InRange := by
  obtain ⟨m, sites, hm, hbody, hindex⟩ := callSite?_eq_some_iff.1 hsite
  refine ⟨h.lt_of_method? hm, ?_⟩
  exact Nat.lt_of_lt_of_le (List.getElem?_eq_some_iff.1 hindex).1
    (h.sites m (List.mem_of_getElem? hm) sites hbody)

end

end Program

namespace Model

open Program

/-- The methods of models in range are in range. -/
theorem Entry.model_inRange {sources : List Source} (h : ∀ s ∈ sources, s.file.InRange) {e : Entry}
    (he : e ∈ entries sources) : e.model.InRange := by
  simp only [entries, List.mem_flatMap, List.mem_map] at he
  obtain ⟨s, hs, c, hc, m, hm, rfl⟩ := he
  exact h s hs c hc m hm

theorem inRange_of_mem_invocations {b : Body} (h : b.InRange) {call : Nat × Invocation}
    (hcall : call ∈ b.invocations) : call.2.InRange :=
  h.statements _ (List.mem_of_getElem? (Body.mem_invocations.1 hcall))

section
variable {name : String} {sources : List Source} {p : Program}

/-- The call sites of a program lowered from models in range are in range. -/
theorem inRange_callSite_lower (h : lower name sources = .ok p)
    (hsources : ∀ s ∈ sources, s.file.InRange) (hp : p.Numbered) {id : SiteId} {site : CallSite}
    (hsite : p.callSite? id = some site) : site.InRange := by
  obtain ⟨hcaller, hindex⟩ := (consistent_of_lower h).site_eq id site hsite
  obtain ⟨hmethod, hposition⟩ := hp.inRange_of_callSite? hsite
  obtain ⟨file, b, call, hbody, hcall, hsite⟩ := callSite?_lower h hsite
  obtain ⟨e, he, hb⟩ := bodyOf_eq_some_iff.1 hbody
  have hrange : b.InRange := Entry.model_inRange hsources (List.mem_of_getElem? he) b hb
  have hinv : call.2.InRange := inRange_of_mem_invocations hrange (List.mem_of_getElem? hcall)
  refine ⟨hcaller ▸ hmethod, hindex ▸ hposition, fun a ha => ?_, fun l hl => ?_⟩
  · rw [hsite] at ha
    obtain ⟨op, hop, rfl⟩ := List.mem_map.1 ha
    exact Dataflow.inRange_lowerOperand hrange _ (hinv.args op hop)
  · rw [hsite] at hl
    obtain ⟨line, hline, rfl⟩ := Option.map_eq_some_iff.1 hl
    exact hinv.line line hline

/-- The numbers of a lowered program come from the models or are positions in its lists. -/
theorem inRange_of_lower (h : lower name sources = .ok p)
    (hsources : ∀ s ∈ sources, s.file.InRange) (hp : p.Numbered) : p.InRange := by
  have hconsistent := consistent_of_lower h
  refine ⟨fun c hc i hi => ?_, fun m hm => ?_, fun edges hedges e he => ?_, hp.edges⟩
  · exact Nat.lt_of_lt_of_le (hconsistent.lt_of_mem hc hi) hp.methods
  · obtain ⟨i, hi⟩ := List.mem_iff_getElem?.1 hm
    refine ⟨?_, fun sites hbody site hsite => ?_⟩
    · rw [hconsistent.id_eq i m hi]
      exact hp.lt_of_method? hi
    · obtain ⟨k, hk⟩ := List.mem_iff_getElem?.1 hsite
      exact inRange_callSite_lower h hsources hp
        (callSite?_eq_some_iff.2 ⟨m, sites, hi, hbody, hk⟩ : p.callSite? ⟨i, k⟩ = some site)
  · obtain ⟨c, hc⟩ := List.mem_iff_getElem?.1 hedges
    have hinto : e ∈ p.edgesInto c := by
      rw [edgesInto, CallGraph.edgesInto, hc]
      exact he
    obtain ⟨⟨site, hsite⟩, m, hm⟩ := exists_ends_of_lower h hinto
    exact ⟨hp.inRange_of_callSite? hsite, hp.lt_of_method? hm⟩

end

end Model

/-! ## Scans -/

namespace Scan

open Model

/-- A program is read back from its text, whether its parts fit together or not. So a program that
was lowered, stored and read again has the findings that it had. -/
theorem scanProgram_reread :
    (∀ p : Program, p.InRange →
      Program.parse? p.toJson.toCompact = some p ∧ Program.parse? p.toJson.toPretty = some p) ∧
    ∀ (name : String) (sources : List Source) (p : Program), lower name sources = .ok p →
      (∀ s ∈ sources, s.file.InRange) → p.Numbered →
      ∀ text ∈ [p.toJson.toCompact, p.toJson.toPretty], ∃ q, Program.parse? text = some q ∧
        ∀ (rules : RuleSet) (settings : AnalysisSettings),
          scanProgram q rules settings = scanProgram p rules settings := by
  refine ⟨fun p hp => ⟨Program.parse?_toCompact hp, Program.parse?_toPretty hp⟩, ?_⟩
  intro name sources p hlower hsources hnumbered
  have hp : p.InRange := inRange_of_lower hlower hsources hnumbered
  simp only [List.forall_mem_cons]
  exact ⟨⟨p, Program.parse?_toCompact hp, fun _ _ => rfl⟩,
    ⟨p, Program.parse?_toPretty hp, fun _ _ => rfl⟩, nofun⟩

/-- A program that contradicts itself: a class lists a method that is missing, methods carry wrong
names, one has no body and one no call sites, and an edge is stored with another method than the one
that it calls. Its numbers are the largest that there are. -/
def tornProgram : Program where
  name := "torn\"\\\n"
  classes := [⟨"a.Ω", none, [18446744073709551615, 0]⟩, ⟨"a.Ω", some "A.java", []⟩]
  methods := [
    ⟨7, "a.Ω.m", "a.Ω", "m", "m()", ["x"], true,
      some [⟨3, 18446744073709551615, "D", "get",
        [.literal "MD5", .parameter 18446744073709551615, .unsupported],
        some ⟨none, 4294967295⟩⟩]⟩,
    ⟨7, "a.Ω.n", "a.Ω", "n", "n()", [], false, some []⟩,
    ⟨7, "a.Ω.k", "a.Ω", "k", "k()", [], false, none⟩]
  callGraph := ⟨[[], [⟨⟨9, 18446744073709551615⟩, 3⟩, ⟨⟨0, 0⟩, 1⟩]], 18446744073709551615⟩

/-- A digest whose algorithm comes from a caller in another file. -/
def storedSources : List Source :=
  [⟨"a.json", ⟨none, [⟨"App", some "App.java", [⟨"run", none, [], true, some ⟨[
      .assign "a" (.literal "MD5"),
      .invoke ⟨"Util", "digest", [.local "a"], none, some 3, none⟩], none⟩⟩]⟩]⟩⟩,
    ⟨"b.json", ⟨none, [⟨"Util", none, [⟨"digest", none, ["name"], true, some ⟨[
      .invoke ⟨"MessageDigest", "getInstance", [.parameter 0], none, some 4294967295, none⟩],
        none⟩⟩]⟩]⟩⟩]

/-- The program of `storedSources`. -/
def storedProgram : Program where
  name := "stored"
  classes := [⟨"App", some "App.java", [0]⟩, ⟨"Util", none, [1]⟩]
  methods := [
    ⟨0, "App.run", "App", "run", "run()", [], true,
      some [⟨0, 0, "Util", "digest", [.literal "MD5"], some ⟨some "App.java", 3⟩⟩]⟩,
    ⟨1, "Util.digest", "Util", "digest", "digest(name)", ["name"], true,
      some [⟨1, 0, "MessageDigest", "getInstance", [.parameter 0], some ⟨none, 4294967295⟩⟩]⟩]
  callGraph := ⟨[[], [⟨⟨0, 0⟩, 1⟩]], 1⟩

/-- The rule that watches the digest. -/
def storedRules : RuleSet :=
  ⟨[⟨"digest", "Digest", "MessageDigest", "getInstance", 0, none, none, .high, "", none⟩]⟩

/-- The program that contradicts itself is read back, and the digest that was stored and read again
has its one finding. -/
theorem scanProgram_reread_stored :
    tornProgram.InRange ∧ Program.parse? tornProgram.toJson.toCompact = some tornProgram ∧
      lower "stored" storedSources = .ok storedProgram ∧
      ∃ q, Program.parse? storedProgram.toJson.toPretty = some q ∧
        (scanProgram q storedRules .standard).map (fun f => (f.algorithm, f.trace)) =
          [("MD5", ["App.run", "Util.digest"])] := by
  obtain ⟨hread, hreread⟩ := scanProgram_reread
  have htorn : tornProgram.InRange := by
    refine ⟨?_, ?_, ?_, by decide⟩
    · simp [tornProgram, ClassDef.InRange]
    · simp only [tornProgram, List.forall_mem_cons]
      refine ⟨⟨by decide, ?_⟩, ⟨by decide, ?_⟩, ⟨by decide, ?_⟩, List.forall_mem_nil _⟩
      · rintro _ ⟨⟩ s hs
        obtain rfl := List.mem_singleton.1 hs
        exact ⟨by decide, by decide, by simp [Argument.InRange], by rintro _ ⟨⟩; decide⟩
      · rintro _ ⟨⟩ s hs
        cases hs
      · rintro _ ⟨⟩
    · simp only [tornProgram, List.forall_mem_cons]
      exact ⟨List.forall_mem_nil _, ⟨⟨⟨by decide, by decide⟩, by decide⟩,
        ⟨⟨by decide, by decide⟩, by decide⟩, List.forall_mem_nil _⟩, List.forall_mem_nil _⟩
  have hlower : lower "stored" storedSources = .ok storedProgram := by cbv
  have hsources : ∀ s ∈ storedSources, s.file.InRange := by
    simp only [storedSources, List.forall_mem_cons, ModelFile.InRange, ClassModel.InRange,
      MethodModel.InRange, Option.some.injEq, forall_eq']
    refine ⟨⟨⟨⟨?_, ?_⟩, List.forall_mem_nil _⟩, List.forall_mem_nil _⟩,
      ⟨⟨⟨?_, ?_⟩, List.forall_mem_nil _⟩, List.forall_mem_nil _⟩, List.forall_mem_nil _⟩
    · exact List.forall_mem_cons.2 ⟨trivial, List.forall_mem_singleton.2
        ⟨by simp [Operand.InRange], by simp⟩⟩
    · rintro _ ⟨⟩
    · exact List.forall_mem_singleton.2 ⟨by simp [Operand.InRange], by simp⟩
    · rintro _ ⟨⟩
  have hnumbered : storedProgram.Numbered := by
    refine ⟨by decide, ?_, by decide⟩
    simp [storedProgram]
  obtain ⟨q, hq, hscan⟩ := hreread "stored" storedSources storedProgram hlower hsources hnumbered
    storedProgram.toJson.toPretty (by simp)
  refine ⟨htorn, (hread _ htorn).1, hlower, q, hq, ?_⟩
  rw [hscan]
  cbv

end Scan

end CryptoAudit
