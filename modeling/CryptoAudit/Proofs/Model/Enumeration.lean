import Mathlib
import CryptoAudit.Proofs.Program.Consistency
import CryptoAudit.Proofs.Resolution.Chain

/-!
# In which order lowering enumerates

Lowering goes over the files twice, with a program that grows on the way. What comes out is a
function of the methods of the files in order (`entries`): the methods with their call sites
(`methods_lower`), and the edges into each of them (`edgesInto_lower`). Here it is written down
without the passes and without the program on which they work.

The edges into a method come by caller, then by call site (`pairwise_edgesInto_lower`). Chains are
compared by the positions of their edges, which is thus a comparison by their call sites: of all
grounding chains, the one that the search reports has the first call sites
(`FirstChain.sites_first`). An edge may stand there several times, so equal call sites may have
different positions; but then the edges are equal, and one can stand for the other.
-/

namespace CryptoAudit

/-- A call site that stands before another: in an earlier method, or earlier in the same. -/
def SiteId.Before (s t : SiteId) : Prop :=
  s.method < t.method ∨ s.method = t.method ∧ s.index < t.index

theorem SiteId.not_before_self (s : SiteId) : ¬ s.Before s := by
  rintro (h | ⟨-, h⟩) <;> exact Nat.lt_irrefl _ h

/-- Positions in a list ascend. -/
theorem pairwise_zipIdx {α : Type} (l : List α) : l.zipIdx.Pairwise fun a b => a.2 < b.2 := by
  have hpositions : (l.zipIdx.map Prod.snd).Pairwise (· < ·) := by
    rw [List.zipIdx_map_snd]
    exact List.pairwise_lt_range'
  exact List.pairwise_map.1 hpositions

/-! ## The invocations of a body -/

namespace Body

/-- The calls of a body stand in the order of their statements. -/
theorem pairwise_invocations (b : Body) : b.invocations.Pairwise fun a c => a.1 < c.1 := by
  rw [invocations, List.pairwise_filterMap]
  refine (pairwise_zipIdx b.statements).imp ?_
  rintro ⟨s, i⟩ ⟨t, j⟩ hlt call hcall call' hcall'
  cases s with
  | assign | nop => cases hcall
  | invoke =>
    cases t with
    | assign | nop => cases hcall'
    | invoke =>
      cases hcall
      cases hcall'
      exact hlt

end Body

namespace Model

/-! ## Methods -/

/-- The source file that the files give for a class: the last one that a declaration of the class
names. -/
def sourceFileIn (sources : List Source) (className : String) : Option String :=
  (((classModels sources).filter (·.name == className)).filterMap (·.sourceFile)).getLast?

/-- The method that an entry becomes under a name: the declared one, with a call site for each
invocation of its body. -/
def Entry.methodIn (sources : List Source) (id : MethodId) (e : Entry) : Method :=
  { e.declaration.toMethod id with
    body := e.model.body.map (sitesOf (sourceFileIn sources e.className) id) }

section
variable {name : String} {sources : List Source} {p : Program}

/-- The methods of a lowered program are those of the models, in order. -/
theorem methods_lower (h : lower name sources = .ok p) :
    p.methods = (entries sources).zipIdx.map fun e => e.1.methodIn sources e.2 := by
  rw [lower_methods h]
  refine List.map_congr_left fun e _ => ?_
  rw [Entry.lowered, sourceFileOf_lower h]
  rfl

end

/-! ## Edges -/

/-- The edges from the invocations of a body to the method `c`, in the order of the invocations and
of the methods that each may reach. -/
def edgesTo (methods : List Method) (c caller : MethodId) (b : Body) : List CallEdge :=
  b.invocations.zipIdx.flatMap fun call =>
    ((resolveCallees methods call.1.2).filter (· == c)).map (⟨⟨caller, call.2⟩, ·⟩)

/-- The edges of a body to one method, picked from all of its edges. -/
theorem filter_edgesOf (methods : List Method) (c caller : MethodId) (b : Body) :
    (edgesOf methods caller b).filter (·.callee == c) = edgesTo methods c caller b := by
  rw [edgesOf, List.filter_flatMap, edgesTo]
  refine congrArg (b.invocations.zipIdx.flatMap ·) (funext fun call => ?_)
  rw [edgesAt, List.filter_map]
  rfl

/-- Going through the bodies is going through the methods that have one. -/
theorem flatMap_bodiesFrom {β : Type} (f : MethodId → Body → List β) (es : List Entry) (n : Nat) :
    ((bodiesFrom n es).flatMap fun pending => f pending.method pending.body) =
      (es.zipIdx n).flatMap fun e => (e.1.model.body.map (f e.2)).getD [] := by
  induction es generalizing n with
  | nil => rfl
  | cons e es ih =>
    rw [List.zipIdx_cons, List.flatMap_cons, ← ih (n + 1), bodiesFrom, List.zipIdx_cons,
      List.filterMap_cons, bodiesFrom]
    cases hbody : e.model.body <;> simp [Entry.pending, hbody]

section
variable {name : String} {sources : List Source} {p : Program}

/-- The edges into a method of a lowered program, by caller and then by call. -/
theorem edgesInto_lower (h : lower name sources = .ok p) (c : MethodId) :
    p.edgesInto c = (entries sources).zipIdx.flatMap fun e =>
      (e.1.model.body.map (edgesTo (methodsFrom 0 (entries sources)) c e.2)).getD [] := by
  have hcallees : ∀ inv, resolveCallees p.methods inv =
      resolveCallees (methodsFrom 0 (entries sources)) inv := by
    intro inv
    rw [resolveCallees_lower h, (declare_has name sources).methods]
  have hedges : ∀ (caller : MethodId) (b : Body),
      (edgesOf p.methods caller b).filter (·.callee == c) =
        edgesTo (methodsFrom 0 (entries sources)) c caller b := by
    intro caller b
    rw [filter_edgesOf, edgesTo, edgesTo]
    simp only [hcallees]
  rw [lower_edgesInto h, edgesOfEntries, List.filter_flatMap]
  simp only [hedges]
  exact flatMap_bodiesFrom (edgesTo (methodsFrom 0 (entries sources)) c) (entries sources) 0

/-! ## The order of edges -/

/-- The edges of a body come from the method that has it. -/
theorem site_of_mem_edgesTo {methods : List Method} {c caller : MethodId} {b : Body}
    {e : CallEdge} (h : e ∈ edgesTo methods c caller b) : e.site.method = caller := by
  obtain ⟨call, -, he⟩ := List.mem_flatMap.1 h
  obtain ⟨callee, -, rfl⟩ := List.mem_map.1 he
  rfl

/-- The edges of a body come by call site. -/
theorem pairwise_edgesTo (methods : List Method) (c caller : MethodId) (b : Body) :
    (edgesTo methods c caller b).Pairwise fun e f => ¬ f.site.Before e.site := by
  rw [edgesTo, List.pairwise_flatMap]
  constructor
  · intro call _
    rw [List.pairwise_map]
    exact List.pairwise_of_forall fun _ _ => SiteId.not_before_self _
  · refine (pairwise_zipIdx b.invocations).imp fun hlt e he f hf => ?_
    obtain ⟨_, -, rfl⟩ := List.mem_map.1 he
    obtain ⟨_, -, rfl⟩ := List.mem_map.1 hf
    rintro (hmethod | ⟨-, hindex⟩)
    · exact Nat.lt_irrefl _ hmethod
    · exact Nat.lt_asymm hlt hindex

/-- The edges into a method come by caller, then by call site. -/
theorem pairwise_edgesInto_lower (h : lower name sources = .ok p) (c : MethodId) :
    (p.edgesInto c).Pairwise fun e f => ¬ f.site.Before e.site := by
  rw [edgesInto_lower h, List.pairwise_flatMap]
  constructor
  · intro e _
    cases e.1.model.body with
    | none => exact .nil
    | some b => exact pairwise_edgesTo _ c e.2 b
  · refine (pairwise_zipIdx (entries sources)).imp fun {a b} hlt e he f hf => ?_
    have hcaller : ∀ {x : Entry × Nat} {e : CallEdge},
        e ∈ (x.1.model.body.map (edgesTo (methodsFrom 0 (entries sources)) c x.2)).getD [] →
          e.site.method = x.2 := by
      intro x e he
      cases hbody : x.1.model.body with
      | none => simp [hbody] at he
      | some body =>
        rw [hbody] at he
        exact site_of_mem_edgesTo he
    rintro (hmethod | ⟨hmethod, -⟩)
    · rw [hcaller he, hcaller hf] at hmethod
      exact Nat.lt_asymm hlt hmethod
    · rw [hcaller he, hcaller hf] at hmethod
      exact Nat.ne_of_gt hlt hmethod

end

end Model

/-! ## The order of chains -/

namespace Resolution

section
variable {p : Program} {bound : DepthBound} {m owner : MethodId} {i : Nat}
  {chain other : List Link} {value w : String}

/-- The edges into each method lead to it and come by call site. -/
structure BySite (p : Program) : Prop where
  callee_eq : ∀ c, ∀ e ∈ p.edgesInto c, e.callee = c
  pairwise : ∀ c, (p.edgesInto c).Pairwise fun e f => ¬ f.site.Before e.site

/-- An edge from an earlier call site has an earlier position. -/
theorem BySite.lt_of_before (h : BySite p) {n k : Nat} {e f : CallEdge}
    (he : (p.edgesInto m)[n]? = some e) (hf : (p.edgesInto m)[k]? = some f)
    (hbefore : e.site.Before f.site) : n < k := by
  obtain ⟨hn, rfl⟩ := List.getElem?_eq_some_iff.1 he
  obtain ⟨hk, rfl⟩ := List.getElem?_eq_some_iff.1 hf
  rcases Nat.lt_trichotomy n k with hlt | rfl | hgt
  · exact hlt
  · exact absurd hbefore (SiteId.not_before_self _)
  · exact absurd hbefore (List.pairwise_iff_getElem.1 (h.pairwise m) k n hk hn hgt)

/-- Edges into a method from one call site are equal. -/
theorem BySite.eq_of_site (h : BySite p) {n k : Nat} {e f : CallEdge}
    (he : (p.edgesInto m)[n]? = some e) (hf : (p.edgesInto m)[k]? = some f)
    (hsite : e.site = f.site) : e = f := by
  have hcallee := (h.callee_eq m e (List.mem_of_getElem? he)).trans
    (h.callee_eq m f (List.mem_of_getElem? hf)).symm
  cases e
  cases f
  cases hsite
  cases hcallee
  rfl

theorem Leads.exists_head (h : Leads p m i chain value) :
    ∃ link rest, chain = link :: rest ∧ (p.edgesInto m)[link.position]? = some link.edge := by
  cases h with
  | literal hedge | parameter hedge => exact ⟨_, _, rfl, hedge⟩

/-- A chain whose call sites come first has positions that come first, once its edges are taken
where the other chain takes the same ones. -/
theorem Leads.exists_precedes (h : BySite p) (hother : Leads p m i other w)
    (hchain : Leads p m i chain value)
    (hsites : List.Lex SiteId.Before (other.map (·.edge.site)) (chain.map (·.edge.site))) :
    ∃ other', Leads p m i other' w ∧ other'.map (·.edge) = other.map (·.edge) ∧
      Precedes other' chain := by
  induction hother generalizing chain with
  | @literal m i n edge w hedge hpassed =>
    obtain ⟨link, rest, rfl, hlink⟩ := hchain.exists_head
    rcases List.cons_lex_cons_iff.1 hsites with hbefore | ⟨hsite, hrest⟩
    · exact ⟨_, .literal hedge hpassed, rfl, .rel (h.lt_of_before hedge hlink hbefore)⟩
    · -- a literal is passed at this call site, so both chains end there
      obtain rfl := h.eq_of_site hedge hlink hsite
      cases hchain with
      | literal => cases hrest
      | parameter _ hpassed' => cases hpassed.symm.trans hpassed'
  | @parameter m i j n edge tail w hedge hpassed hleads ih =>
    obtain ⟨link, rest, rfl, hlink⟩ := hchain.exists_head
    rcases List.cons_lex_cons_iff.1 hsites with hbefore | ⟨hsite, hrest⟩
    · exact ⟨_, .parameter hedge hpassed hleads, rfl, .rel (h.lt_of_before hedge hlink hbefore)⟩
    · obtain rfl := h.eq_of_site hedge hlink hsite
      cases hchain with
      | literal _ hpassed' => cases hpassed.symm.trans hpassed'
      | parameter _ hpassed' hleads' =>
        cases hpassed.symm.trans hpassed'
        obtain ⟨tail', htail, hedges, hprecedes⟩ := ih hleads' hrest
        exact ⟨_ :: tail', .parameter hlink hpassed htail, congrArg (_ :: ·) hedges,
          .cons hprecedes⟩

/-- Whether a chain may be followed depends on its edges and not on their positions. -/
theorem GroundingChain.of_edges {other' : List Link}
    (h : GroundingChain p bound owner i other w) (hleads : Leads p owner i other' w)
    (hedges : other'.map (·.edge) = other.map (·.edge)) :
    GroundingChain p bound owner i other' w := by
  have hlength : other'.length = other.length := by simpa using congrArg List.length hedges
  have hmethods : chainMethods owner other' = chainMethods owner other := by
    have hcallers := congrArg (List.map CallEdge.caller) hedges
    rw [List.map_map, List.map_map] at hcallers
    rw [chainMethods, chainMethods, List.map_dropLast, List.map_dropLast]
    exact congrArg (owner :: ·.dropLast) hcallers
  exact ⟨hleads, hmethods ▸ h.distinct, hlength ▸ h.bounded⟩

/-- No grounding chain has call sites before those of the first chain. -/
theorem FirstChain.sites_first (h : BySite p) (hfirst : FirstChain p bound owner i chain value)
    (hother : GroundingChain p bound owner i other w) :
    ¬ List.Lex SiteId.Before (other.map (·.edge.site)) (chain.map (·.edge.site)) := by
  intro hsites
  obtain ⟨other', hleads, hedges, hprecedes⟩ :=
    hother.leads.exists_precedes h hfirst.grounds.leads hsites
  rcases hfirst.first other' w (hother.of_edges hleads hedges) with rfl | hafter
  · exact List.lex_asymm Nat.lt_asymm hprecedes hprecedes
  · exact List.lex_asymm Nat.lt_asymm hprecedes hafter

end

end Resolution

namespace Model

open Resolution

/-- The methods of a lowered program are those of the files, named in the order of files, classes
and methods. Each has one call site for each invocation of its body, in the order of statements,
with the arguments as they are known before the statement, and with the last source file that the
files give for its class. The edges into a method are those of all bodies that lead to it, by
method, by statement and in the order of the methods that the invocation may reach. So they come by
caller and call site, and the resolver reports the chain that comes first in this order. -/
theorem lower_enumerates {name : String} {sources : List Source} {p : Program}
    (h : lower name sources = .ok p) :
    p.methods = (entries sources).zipIdx.map (fun e => e.1.methodIn sources e.2) ∧
    (∀ b : Body, (∀ i inv, (i, inv) ∈ b.invocations ↔ b.statements[i]? = some (.invoke inv)) ∧
      b.invocations.Pairwise fun call call' => call.1 < call'.1) ∧
    (∀ c, p.edgesInto c = (entries sources).zipIdx.flatMap fun e =>
      (e.1.model.body.map (edgesTo (methodsFrom 0 (entries sources)) c e.2)).getD []) ∧
    (∀ c, (p.edgesInto c).Pairwise fun e f => ¬ f.site.Before e.site) ∧
    ∀ bound owner i, (resolve p bound owner (.parameter i)).isResolved = true →
      ∃ chain value, GroundingChain p bound owner i chain value ∧
        resolve p bound owner (.parameter i) =
          .traced value (qualifiedNames p (chainTrace owner chain)) ∧
        ∀ other w, GroundingChain p bound owner i other w →
          ¬ List.Lex SiteId.Before (other.map (·.edge.site)) (chain.map (·.edge.site)) := by
  refine ⟨methods_lower h, fun b => ⟨fun _ _ => Body.mem_invocations, b.pairwise_invocations⟩,
    edgesInto_lower h, pairwise_edgesInto_lower h, fun bound owner i hresolved => ?_⟩
  have hsite : BySite p := ⟨(consistent_of_lower h).callee_eq, pairwise_edgesInto_lower h⟩
  rw [resolve] at hresolved ⊢
  rcases traceParameter_cases p bound owner i with ⟨hnone, -⟩ | ⟨chain, value, hfirst, hsome⟩
  · rw [hnone] at hresolved
    cases hresolved
  · rw [hsome]
    exact ⟨chain, value, hfirst.grounds, rfl, fun _ _ hother => hfirst.sites_first hsite hother⟩

/-- A class whose methods and source file come from two files, with two methods of one name. One
call names its callees, one of them twice and one that does not exist. -/
def overloadedSources : List Source :=
  [⟨"a.json", ⟨none, [
      ⟨"App", some "Old.java", [
        ⟨"run", none, [], true, some ⟨[
          .assign "mode" (.literal "AES"),
          .invoke ⟨"App", "seal", [.local "mode"], none, some 3, none⟩,
          .invoke ⟨"Box", "seal", [.literal "DES"], none, none,
            some ["App.seal", "Log.write", "App.seal"]⟩], none⟩⟩,
        ⟨"stub", none, ["x"], false, none⟩]⟩]⟩⟩,
    ⟨"b.json", ⟨none, [
      ⟨"App", some "App.java", [
        ⟨"seal", none, ["a"], true, some ⟨[.invoke
          ⟨"App", "seal", [.parameter 0], none, some 9, none⟩], none⟩⟩,
        ⟨"seal", none, ["a", "b"], true, none⟩]⟩,
      ⟨"App", none, []⟩]⟩⟩]

/-- The program of `overloadedSources`. -/
def overloadedProgram : Program where
  name := "app"
  classes := [⟨"App", some "App.java", [0, 1, 2, 3]⟩]
  methods := [
    ⟨0, "App.run", "App", "run", "run()", [], true, some [
      ⟨0, 0, "App", "seal", [.literal "AES"], some ⟨some "App.java", 3⟩⟩,
      ⟨0, 1, "Box", "seal", [.literal "DES"], none⟩]⟩,
    ⟨1, "App.stub", "App", "stub", "stub(x)", ["x"], false, none⟩,
    ⟨2, "App.seal", "App", "seal", "seal(a)", ["a"], true, some [
      ⟨2, 0, "App", "seal", [.parameter 0], some ⟨some "App.java", 9⟩⟩]⟩,
    ⟨3, "App.seal", "App", "seal", "seal(a, b)", ["a", "b"], true, none⟩]
  callGraph := ⟨[[], [], [⟨⟨0, 0⟩, 2⟩, ⟨⟨0, 1⟩, 2⟩, ⟨⟨0, 1⟩, 2⟩, ⟨⟨2, 0⟩, 2⟩]], 4⟩

/-- Both calls of `run` reach the method with one parameter, the second of them twice, before the
call in the method itself; the first literal is reported. -/
theorem lower_enumerates_overloaded :
    lower "app" overloadedSources = .ok overloadedProgram ∧
    overloadedProgram.edgesInto 2 = (entries overloadedSources).zipIdx.flatMap (fun e =>
      (e.1.model.body.map (edgesTo (methodsFrom 0 (entries overloadedSources)) 2 e.2)).getD []) ∧
    (∃ chain value, GroundingChain overloadedProgram none 2 0 chain value ∧
      resolve overloadedProgram none 2 (.parameter 0) =
        .traced value (qualifiedNames overloadedProgram (chainTrace 2 chain))) ∧
    resolve overloadedProgram none 2 (.parameter 0) = .traced "AES" ["App.run", "App.seal"] := by
  have hlower : lower "app" overloadedSources = .ok overloadedProgram := by cbv
  have hresolve :
      resolve overloadedProgram none 2 (.parameter 0) = .traced "AES" ["App.run", "App.seal"] := by
    cbv
  obtain ⟨-, -, hedges, -, hfirst⟩ := lower_enumerates hlower
  obtain ⟨chain, value, hchain, htraced, -⟩ := hfirst none 2 0 (by rw [hresolve]; rfl)
  exact ⟨hlower, hedges 2, ⟨chain, value, hchain, htraced⟩, hresolve⟩

end Model

end CryptoAudit
