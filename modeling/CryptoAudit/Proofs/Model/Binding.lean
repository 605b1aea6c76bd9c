import Mathlib
import CryptoAudit.Proofs.Model.Enumeration

/-!
# Which methods a call is bound to

A call that names no callees is bound by its declared target: to the methods of this name that have
a parameter for each of its arguments. Where the program has a single method of the name, the call
is bound to it even if the numbers differ (`mem_pick_iff`), so an edge may lead to a method with
more or fewer parameters than the call has arguments.

Edges may be recorded more than once, so they are counted: a call site has as many edges to a method
as the call reaches it (`count_edgesInto_lower`), which for a call that names no callees is once at
most.
-/

namespace CryptoAudit.Model

/-! ## Counting edges -/

/-- Where the items of a list have different keys and only one of them has `y`, it has all of
them. -/
theorem count_flatMap_of_key {α β γ : Type} [DecidableEq β] {l : List α} {f : α → List β}
    {key : α → γ} {a : α} {y : β} (hnodup : (l.map key).Nodup) (ha : a ∈ l)
    (hother : ∀ x ∈ l, key x ≠ key a → y ∉ f x) : (l.flatMap f).count y = (f a).count y := by
  obtain ⟨before, after, rfl⟩ := List.append_of_mem ha
  rw [List.map_append, List.map_cons, List.nodup_middle, List.nodup_cons] at hnodup
  have hrest : ∀ x ∈ before ++ after, y ∉ f x := by
    intro x hx
    have hmem : x ∈ before ++ a :: after :=
      (List.Sublist.append_left (List.sublist_cons_self a after) before).subset hx
    refine hother x hmem fun hkey => hnodup.1 ?_
    rw [← List.map_append, ← hkey]
    exact List.mem_map_of_mem hx
  have hnone : ∀ part : List α, part ⊆ before ++ after → (part.flatMap f).count y = 0 := by
    intro part hpart
    rw [List.count_eq_zero, List.mem_flatMap]
    rintro ⟨x, hx, hy⟩
    exact hrest x (hpart hx) hy
  rw [List.flatMap_append, List.flatMap_cons, List.count_append, List.count_append,
    hnone before (List.subset_append_left ..), hnone after (List.subset_append_right ..),
    Nat.zero_add, Nat.add_zero]

/-- A call has as many edges to a method as it resolves to the method. -/
theorem count_edgesOf {methods : List Method} {caller : MethodId} {b : Body} {k : Nat}
    {call : Nat × Invocation} (hcall : b.invocations[k]? = some call) (c : MethodId) :
    (edgesOf methods caller b).count ⟨⟨caller, k⟩, c⟩ =
      (resolveCallees methods call.2).count c := by
  have hkeys : (b.invocations.zipIdx.map Prod.snd).Nodup := by
    rw [List.zipIdx_map_snd]
    exact List.nodup_range'
  rw [edgesOf, count_flatMap_of_key hkeys (List.mk_mem_zipIdx_iff_getElem?.2 hcall), edgesAt]
  · exact List.count_map_of_injective _ _ (fun _ _ h => (CallEdge.mk.inj h).2) c
  · rintro ⟨call', k'⟩ - hne hmem
    obtain ⟨_, -, hedge⟩ := List.mem_map.1 hmem
    exact hne (SiteId.mk.inj (CallEdge.mk.inj hedge).1).2

section
variable {name : String} {sources : List Source} {p : Program} {caller : MethodId} {b : Body}

/-- A call site has as many edges to a method as the call reaches it. -/
theorem count_edgesInto_lower (h : lower name sources = .ok p)
    (hbody : bodyOf sources caller = some b) {k : Nat} {call : Nat × Invocation}
    (hcall : b.invocations[k]? = some call) (c : MethodId) :
    (p.edgesInto c).count ⟨⟨caller, k⟩, c⟩ = (resolveCallees p.methods call.2).count c := by
  obtain ⟨e, he, hb⟩ := bodyOf_eq_some_iff.1 hbody
  have hpending : (⟨caller, e.source, b⟩ : PendingBody) ∈ bodiesFrom 0 (entries sources) :=
    mem_bodiesFrom.2 ⟨e, he, rfl, hb⟩
  rw [lower_edgesInto h, List.count_filter (by simp), edgesOfEntries,
    count_flatMap_of_key (nodup_bodiesFrom _) hpending, count_edgesOf hcall]
  intro pending _ hne hmem
  exact hne (mem_edgesOf.1 hmem).1.symm

end

/-! ## Binding by name -/

/-- A name is resolved to distinct methods. -/
theorem nodup_pick {methods : List Method} {arity : Nat} {name : String}
    (h : (methods.map (·.id)).Nodup) : (pick methods arity name).Nodup := by
  rw [pick_eq]
  dsimp only
  split
  · exact h.sublist (List.filter_sublist.map _)
  · exact h.sublist ((List.filter_sublist.trans List.filter_sublist).map _)

/-- A call is bound to a method of the program: one with the name that is called, which has a
parameter for each argument or is the only one with this name. -/
structure BoundTo (p : Program) (inv : Invocation) (c : MethodId) (m : Method) : Prop where
  method : p.method? c = some m
  name : m.qualifiedName = inv.declaringType ++ "." ++ inv.method
  fits : m.parameters.length = inv.args.length ∨
    p.methods.filter (·.qualifiedName == inv.declaringType ++ "." ++ inv.method) = [m]

section
variable {p : Program} {inv : Invocation} {c : MethodId}

/-- A call without known callees may reach the methods that it is bound to. -/
theorem mem_resolveCallees_static (hp : p.Consistent) (hcallees : inv.callees = none) :
    c ∈ resolveCallees p.methods inv ↔ ∃ m, BoundTo p inv c m := by
  simp only [resolveCallees, hcallees, mem_pick_iff]
  constructor
  · rintro ⟨m, hm, rfl, hname, hfits⟩
    obtain ⟨i, hi⟩ := List.mem_iff_getElem?.1 hm
    rw [hp.id_eq i m hi]
    exact ⟨m, hi, hname, hfits⟩
  · rintro ⟨m, hm, hname, hfits⟩
    exact ⟨m, List.mem_of_getElem? hm, hp.id_eq c m hm, hname, hfits⟩

/-- In a consistent program, methods are named by their positions. -/
theorem map_id_methods (hp : p.Consistent) :
    p.methods.map (·.id) = List.range p.methods.length := by
  refine List.ext_getElem (by simp) fun i hi _ => ?_
  rw [List.getElem_map, List.getElem_range]
  exact hp.id_eq i _ (List.getElem?_eq_getElem _)

/-- A call without known callees reaches no method twice. -/
theorem nodup_resolveCallees_static (hp : p.Consistent) (hcallees : inv.callees = none) :
    (resolveCallees p.methods inv).Nodup := by
  rw [resolveCallees, hcallees]
  refine nodup_pick ?_
  rw [map_id_methods hp]
  exact List.nodup_range

end

/-- Where the files have an invocation that names no callees, the program has a call site with its
target and as many arguments. Every edge from this call site leads to a method with the name that is
called, which has a parameter for each argument or is the only one of its name; and every such
method has exactly one edge from it. -/
theorem static_call_edges {name : String} {sources : List Source} {p : Program}
    (h : lower name sources = .ok p) {caller : MethodId} {b : Body} {i : Nat} {inv : Invocation}
    (hbody : bodyOf sources caller = some b) (hinvoke : b.statements[i]? = some (.invoke inv))
    (hcallees : inv.callees = none) :
    ∃ k site, b.invocations[k]? = some (i, inv) ∧ p.callSite? ⟨caller, k⟩ = some site ∧
      site.target = inv.target ∧ site.arity = inv.args.length ∧
      (∀ c, ∀ edge ∈ p.edgesInto c, edge.site = ⟨caller, k⟩ →
        edge.callee = c ∧ ∃ m, BoundTo p inv c m) ∧
      ∀ c m, BoundTo p inv c m → (p.edgesInto c).count ⟨⟨caller, k⟩, c⟩ = 1 := by
  have hp := consistent_of_lower h
  obtain ⟨k, hk⟩ := List.mem_iff_getElem?.1 (Body.mem_invocations.2 hinvoke)
  obtain ⟨file, hsite⟩ := callSite?_of_invocation h hbody hk
  have hcount := count_edgesInto_lower h hbody hk
  refine ⟨k, _, hk, hsite, rfl, List.length_map .., ?_, fun c m hbound => ?_⟩
  · intro c edge hedge hfrom
    have hcallee := hp.callee_eq c edge hedge
    obtain rfl : edge = ⟨⟨caller, k⟩, c⟩ := by rw [← hfrom, ← hcallee]
    refine ⟨rfl, (mem_resolveCallees_static hp hcallees).1 ?_⟩
    rw [← List.count_pos_iff, ← hcount]
    exact List.count_pos_iff.2 hedge
  · rw [hcount]
    exact List.count_eq_one_of_mem (nodup_resolveCallees_static hp hcallees)
      ((mem_resolveCallees_static hp hcallees).2 ⟨m, hbound⟩)

/-- A call of a method `Digests.of`. -/
def digestCall : Invocation := ⟨"Digests", "of", [.literal "MD5"], none, none, none⟩

/-- A call of a method `Digests.seal`. -/
def sealCall : Invocation := ⟨"Digests", "seal", [.literal "AES"], none, none, none⟩

/-- The body of `App.run` in `calledSources`. -/
def callingBody : Body := ⟨[.invoke digestCall, .invoke sealCall], none⟩

/-- One call of the only method `Digests.of`, which has two parameters, and one call of the methods
`Digests.seal`, two of which have one parameter. -/
def calledSources : List Source :=
  [⟨"a.json", ⟨none, [⟨"App", none, [⟨"run", none, [], true, some callingBody⟩]⟩]⟩⟩,
    ⟨"b.json", ⟨none, [⟨"Digests", none, [
      ⟨"of", none, ["data", "algorithm"], true, none⟩,
      ⟨"seal", none, ["mode"], true, none⟩,
      ⟨"seal", none, ["mode", "key"], true, none⟩]⟩]⟩⟩,
    ⟨"c.json", ⟨none, [⟨"Digests", none, [⟨"seal", none, ["name"], true, none⟩]⟩]⟩⟩]

/-- The program of `calledSources`. -/
def calledProgram : Program where
  name := "app"
  classes := [⟨"App", none, [0]⟩, ⟨"Digests", none, [1, 2, 3, 4]⟩]
  methods := [
    ⟨0, "App.run", "App", "run", "run()", [], true, some [
      ⟨0, 0, "Digests", "of", [.literal "MD5"], none⟩,
      ⟨0, 1, "Digests", "seal", [.literal "AES"], none⟩]⟩,
    ⟨1, "Digests.of", "Digests", "of", "of(data, algorithm)", ["data", "algorithm"], true, none⟩,
    ⟨2, "Digests.seal", "Digests", "seal", "seal(mode)", ["mode"], true, none⟩,
    ⟨3, "Digests.seal", "Digests", "seal", "seal(mode, key)", ["mode", "key"], true, none⟩,
    ⟨4, "Digests.seal", "Digests", "seal", "seal(name)", ["name"], true, none⟩]
  callGraph := ⟨[[], [⟨⟨0, 0⟩, 1⟩], [⟨⟨0, 1⟩, 2⟩], [], [⟨⟨0, 1⟩, 4⟩]], 3⟩

/-- The call of `Digests.seal` has an edge to the first and to the last of the three methods. -/
theorem static_call_edges_overloaded :
    lower "app" calledSources = .ok calledProgram ∧
    ∃ k site, callingBody.invocations[k]? = some (1, sealCall) ∧
      calledProgram.callSite? ⟨0, k⟩ = some site ∧ site.target = "Digests.seal" ∧
      (calledProgram.edgesInto 2).count ⟨⟨0, k⟩, 2⟩ = 1 ∧
      (calledProgram.edgesInto 4).count ⟨⟨0, k⟩, 4⟩ = 1 := by
  have hlower : lower "app" calledSources = .ok calledProgram := by cbv
  have hbody : bodyOf calledSources 0 = some callingBody := rfl
  have hinvoke : callingBody.statements[1]? = some (.invoke sealCall) := rfl
  obtain ⟨k, site, hk, hsite, htarget, -, -, hone⟩ :=
    static_call_edges hlower hbody hinvoke rfl
  exact ⟨hlower, k, site, hk, hsite, htarget, hone 2 _ ⟨rfl, rfl, .inl rfl⟩,
    hone 4 _ ⟨rfl, rfl, .inl rfl⟩⟩

/-- The call of `Digests.of` with one argument has an edge to the method with two parameters, the
only one of the name. -/
theorem static_call_misfit :
    lower "app" calledSources = .ok calledProgram ∧
    bodyOf calledSources 0 = some callingBody ∧
    callingBody.invocations[0]? = some (0, digestCall) ∧ digestCall.callees = none ∧
    ⟨⟨0, 0⟩, 1⟩ ∈ calledProgram.edgesInto 1 ∧
    ¬ ∃ m, calledProgram.method? 1 = some m ∧
      m.qualifiedName = digestCall.declaringType ++ "." ++ digestCall.method ∧
      m.parameters.length = digestCall.args.length := by
  refine ⟨by cbv, rfl, rfl, rfl, by decide, ?_⟩
  rintro ⟨m, hm, -, hparameters⟩
  cases hm
  cases hparameters

end CryptoAudit.Model
