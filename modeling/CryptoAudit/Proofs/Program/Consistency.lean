import Mathlib
import CryptoAudit.Proofs.Model.Classes

/-!
# Programs whose parts fit together

A program that was read from outside may contradict itself. One that was built by steps does not:
its methods carry their own names, its classes share them out, its call sites know where they stand,
and its edges are stored with the methods that they call (`Consistent`). Each step keeps this, in
any order of steps (`Consistent.run`), and so every program that is built has it.

The steps do not check edges, so an edge of a built program may lead from and to anything. What the
graph holds is still determined by the order of the steps: `recorded` lists the edges as they were
recorded, and the edges into a method are those of the list that call it.

Lowering is a way of building (`built_of_lower`). It records edges only for call sites that
it has just added, and only to methods that it has declared.
-/

namespace CryptoAudit

/-! ## The edges of a graph -/

namespace CallGraph

/-- An edge that is added to one list adds one edge to all lists. -/
theorem length_flatten_modify {lists : List (List CallEdge)} {i : Nat} (h : i < lists.length)
    (e : CallEdge) :
    (lists.modify i (· ++ [e])).flatten.length = lists.flatten.length + 1 := by
  obtain ⟨before, es, after, rfl, -, hmodify⟩ := List.exists_of_modify (· ++ [e]) h
  rw [hmodify]
  simp only [List.flatten_append, List.flatten_cons, List.length_append, List.length_singleton]
  omega

/-- One more edge is stored. -/
theorem length_flatten_addEdge (g : CallGraph) (site : SiteId) (callee : MethodId) :
    (g.addEdge site callee).incoming.flatten.length = g.incoming.flatten.length + 1 := by
  have hlt : callee < (g.incoming.rightpad (callee + 1) []).length := by
    rw [List.length_rightpad]
    exact Nat.lt_of_lt_of_le (Nat.lt_succ_self callee) (Nat.le_max_left ..)
  rw [addEdge, length_flatten_modify hlt, List.rightpad, List.flatten_append]
  simp

end CallGraph

namespace Program

/-! ## Consistent programs -/

/-- The parts of a program fit together. -/
structure Consistent (p : Program) : Prop where
  /-- A method carries the name under which it is found. -/
  id_eq : ∀ i m, p.method? i = some m → m.id = i
  /-- No two classes have the same name. -/
  className_nodup : (p.classes.map (·.name)).Nodup
  /-- The classes together list every method once, and nothing else. -/
  listed_perm : p.listed.Perm (List.range p.methods.length)
  /-- A class lists its methods in the order in which they were added. -/
  increasing : ∀ c ∈ p.classes, c.methods.Pairwise (· < ·)
  /-- A class lists only methods that name it as theirs. -/
  className_eq : ∀ c ∈ p.classes, ∀ i ∈ c.methods, ∀ m, p.method? i = some m →
    m.className = c.name
  /-- A call site carries the name under which it is found. -/
  site_eq : ∀ id site, p.callSite? id = some site →
    site.caller = id.method ∧ site.index = id.index
  /-- An edge is stored with the method that it calls. -/
  callee_eq : ∀ c, ∀ e ∈ p.edgesInto c, e.callee = c
  edgeCount_eq : p.callGraph.edgeCount = p.callGraph.incoming.flatten.length

section
variable {p : Program}

/-- A program without classes is consistent. -/
theorem consistent_empty (name : String) : (empty name).Consistent where
  id_eq _ _ h := by simp [empty, method?] at h
  className_nodup := .nil
  listed_perm := .refl _
  increasing _ h := nomatch h
  className_eq _ h := nomatch h
  site_eq _ _ h := by simp [empty, callSite?, method?] at h
  callee_eq _ _ h := by simp [empty, edgesInto, CallGraph.empty, CallGraph.edgesInto] at h
  edgeCount_eq := rfl

/-- A call site is found in the body of its method, at its position. -/
theorem callSite?_eq_some_iff {id : SiteId} {site : CallSite} :
    p.callSite? id = some site ↔
      ∃ m sites, p.method? id.method = some m ∧ m.body = some sites ∧
        sites[id.index]? = some site := by
  simp [callSite?, Option.bind_eq_some_iff]

/-- A class lists methods that exist. -/
theorem Consistent.lt_of_mem (h : p.Consistent) {c : ClassDef} (hc : c ∈ p.classes) {i : MethodId}
    (hi : i ∈ c.methods) : i < p.methods.length :=
  List.mem_range.1 (h.listed_perm.mem_iff.1 (List.mem_flatMap.2 ⟨c, hc, hi⟩))

/-- Every method stands in one class. -/
theorem Consistent.existsUnique_class (h : p.Consistent) {i : MethodId}
    (hi : i < p.methods.length) : ∃! c, c ∈ p.classes ∧ i ∈ c.methods := by
  obtain ⟨c, hc, hmem⟩ := List.mem_flatMap.1 (h.listed_perm.mem_iff.2 (List.mem_range.2 hi))
  have hm : p.method? i = some p.methods[i] := List.getElem?_eq_getElem hi
  refine ⟨c, ⟨hc, hmem⟩, ?_⟩
  rintro b ⟨hb, hmemb⟩
  have hname : b.name = c.name :=
    (h.className_eq b hb i hmemb _ hm).symm.trans (h.className_eq c hc i hmem _ hm)
  exact List.inj_on_of_nodup_map h.className_nodup hb hc hname

/-- A class lists a method of its own once. -/
theorem Consistent.count_eq_one (h : p.Consistent) {c : ClassDef} (hc : c ∈ p.classes)
    {i : MethodId} (hi : i ∈ c.methods) : c.methods.count i = 1 :=
  List.count_eq_one_of_mem ((h.increasing c hc).imp Nat.ne_of_lt) hi

/-- The methods in the order of classes are all methods. -/
theorem Consistent.methodsInOrder_perm (h : p.Consistent) : p.methodsInOrder.Perm p.methods := by
  have hmap := h.listed_perm.filterMap p.method?
  rwa [show (List.range p.methods.length).filterMap p.method? = p.methods from
    Model.filterMap_range_getElem? p.methods] at hmap

end

/-! ## Steps that change classes -/

section
variable {p : Program} {c : ClassDef} {name : String}

/-- Making sure that a class exists adds no class but this one, which lists no methods. -/
theorem mem_ensureClass (h : c ∈ (p.ensureClass name).classes) :
    c ∈ p.classes ∨ c = ⟨name, none, []⟩ := by
  unfold ensureClass at h
  split at h
  · exact .inl h
  · simpa using h

/-- Making sure that a class exists keeps the names of classes distinct. -/
theorem nodup_ensureClass (h : (p.classes.map (·.name)).Nodup) (name : String) :
    ((p.ensureClass name).classes.map (·.name)).Nodup := by
  unfold ensureClass
  split
  next => exact h
  next hnew =>
    have hnotMem : name ∉ p.classes.map (·.name) := by simpa using hnew
    rw [List.map_append, List.nodup_append_comm]
    exact List.nodup_cons.2 ⟨hnotMem, h⟩

/-- A class after a change of the first class of a name is one of the others, or it is a class of
that name after the change. -/
theorem mem_modifyClass {f : ClassDef → ClassDef} (h : c ∈ (p.modifyClass name f).classes) :
    c ∈ p.classes ∨ ∃ b ∈ p.classes, b.name = name ∧ c = f b := by
  obtain ⟨i, hi⟩ := List.mem_iff_getElem?.1 h
  rw [modifyClass, List.getElem?_modify] at hi
  obtain ⟨b, hb, hc⟩ := Option.map_eq_some_iff.1 hi
  split at hc
  next hindex =>
    obtain ⟨hlt, rfl⟩ := List.getElem?_eq_some_iff.1 (hindex ▸ hb)
    have hname := List.findIdx_getElem (w := hlt)
    exact .inr ⟨_, List.getElem_mem hlt, eq_of_beq hname, hc.symm⟩
  next =>
    subst hc
    exact .inl (List.mem_of_getElem? hb)

/-- Changing a class but for its name keeps the names of classes. -/
theorem map_name_modifyClass (p : Program) (name : String) {f : ClassDef → ClassDef}
    (hf : ∀ c, (f c).name = c.name) :
    (p.modifyClass name f).classes.map (·.name) = p.classes.map (·.name) := by
  refine List.ext_getElem? fun i => ?_
  rw [modifyClass, List.getElem?_map, List.getElem?_map, List.getElem?_modify]
  cases p.classes[i]? with
  | none => rfl
  | some c =>
    simp only [Option.map_eq_map, Option.map_some]
    split <;> simp [hf]

/-- Classes may be added that list nothing, and change in what is not their name and not their
methods. -/
theorem Consistent.of_classes {q : Program} (h : p.Consistent) (hmethods : q.methods = p.methods)
    (hgraph : q.callGraph = p.callGraph) (hnodup : (q.classes.map (·.name)).Nodup)
    (hlisted : q.listed = p.listed)
    (hclasses : ∀ c ∈ q.classes, c.methods = [] ∨
      ∃ b ∈ p.classes, c.name = b.name ∧ c.methods = b.methods) : q.Consistent := by
  have hmethod : q.method? = p.method? := funext fun i => congrArg (·[i]?) hmethods
  have hedges : q.edgesInto = p.edgesInto := funext fun c => congrArg (·.edgesInto c) hgraph
  refine ⟨hmethod ▸ h.id_eq, hnodup, ?_, fun c hc => ?_, fun c hc i hi => ?_, ?_,
    hedges ▸ h.callee_eq, hgraph ▸ h.edgeCount_eq⟩
  · rw [hlisted, hmethods]
    exact h.listed_perm
  · rcases hclasses c hc with hnil | ⟨b, hb, -, heq⟩
    · rw [hnil]
      exact .nil
    · rw [heq]
      exact h.increasing b hb
  · rcases hclasses c hc with hnil | ⟨b, hb, hname, heq⟩
    · rw [hnil] at hi
      cases hi
    · rw [hname, hmethod]
      exact h.className_eq b hb i (heq ▸ hi)
  · intro id site hsite
    rw [callSite?, hmethod] at hsite
    exact h.site_eq id site hsite

/-- Making sure that a class exists keeps a program consistent. -/
theorem Consistent.ensureClass (h : p.Consistent) (name : String) :
    (p.ensureClass name).Consistent := by
  obtain ⟨hmethods, hgraph⟩ := Model.ensureClass_methods p name
  refine h.of_classes hmethods hgraph (nodup_ensureClass h.className_nodup name)
    (listed_ensureClass p name) fun c hc => ?_
  rcases mem_ensureClass hc with hc | rfl
  · exact .inr ⟨c, hc, rfl, rfl⟩
  · exact .inl rfl

/-- Declaring a class keeps a program consistent. -/
theorem Consistent.declareClass (h : p.Consistent) (name : String) (file : Option String) :
    (p.declareClass name file).Consistent := by
  cases file with
  | none => exact h.ensureClass name
  | some file =>
    have hensured := h.ensureClass name
    refine hensured.of_classes rfl rfl ?_ ?_ fun c hc => ?_
    · have hnames := map_name_modifyClass (p.ensureClass name) name
        (f := fun c => { c with sourceFile := some file }) fun _ => rfl
      exact hnames ▸ hensured.className_nodup
    · rw [listed_declareClass, listed_ensureClass]
    · rcases mem_modifyClass hc with hc | ⟨b, hb, -, rfl⟩
      · exact .inr ⟨c, hc, rfl, rfl⟩
      · exact .inr ⟨b, hb, rfl, rfl⟩

end

/-! ## Steps that change methods -/

section
variable {p : Program}

/-- The classes after a method was added: the method stands at the end of its class. -/
theorem mem_addMethod {d : Declaration} {c : ClassDef} (h : c ∈ (p.addMethod d).classes) :
    ∃ b ∈ (p.ensureClass d.className).classes, c.name = b.name ∧
      (c.methods = b.methods ∨
        c.name = d.className ∧ c.methods = b.methods ++ [p.methods.length]) := by
  rcases mem_modifyClass h with hc | ⟨b, hb, hname, rfl⟩
  · exact ⟨c, hc, rfl, .inl rfl⟩
  · exact ⟨b, hb, rfl, .inr ⟨hname, rfl⟩⟩

/-- A method that is added is found under the next free name, and the others as before. -/
theorem method?_addMethod (p : Program) (d : Declaration) (i : MethodId) :
    (p.addMethod d).method? i =
      if i = p.methods.length then some (d.toMethod i) else p.method? i := by
  rw [method?, (Model.addMethod_methods p d).1, method?]
  rcases Nat.lt_trichotomy i p.methods.length with hlt | rfl | hgt
  · rw [List.getElem?_append_left hlt, if_neg (Nat.ne_of_lt hlt)]
  · simp
  · rw [if_neg (Nat.ne_of_gt hgt), List.getElem?_eq_none (Nat.le_of_lt hgt),
      List.getElem?_eq_none]
    rw [List.length_append]
    exact hgt

/-- A method has no call sites when it is added. -/
theorem callSite?_of_addMethod {d : Declaration} {id : SiteId} {site : CallSite}
    (h : (p.addMethod d).callSite? id = some site) : p.callSite? id = some site := by
  obtain ⟨m, sites, hm, hbody, hindex⟩ := callSite?_eq_some_iff.1 h
  rw [method?_addMethod] at hm
  split at hm
  · cases hm
    obtain rfl : sites = [] := by
      rw [Declaration.toMethod] at hbody
      split at hbody <;> cases hbody
      rfl
    cases hindex
  · exact callSite?_eq_some_iff.2 ⟨m, sites, hm, hbody, hindex⟩

/-- Adding a method keeps a program consistent: it is listed once, as the last method of its class,
under the next free name. -/
theorem Consistent.addMethod (h : p.Consistent) (d : Declaration) : (p.addMethod d).Consistent := by
  obtain ⟨hmethods, hgraph⟩ := Model.addMethod_methods p d
  have hensured := h.ensureClass d.className
  have hmethods' : (p.ensureClass d.className).methods = p.methods :=
    (Model.ensureClass_methods p d.className).1
  have hedges : (p.addMethod d).edgesInto = p.edgesInto :=
    funext fun c => congrArg (·.edgesInto c) hgraph
  -- A class lists methods that exist already, so that the new method is above them.
  have hlt : ∀ b ∈ (p.ensureClass d.className).classes, ∀ i ∈ b.methods, i < p.methods.length :=
    fun b hb i hi => hmethods' ▸ hensured.lt_of_mem hb hi
  refine ⟨fun i m hm => ?_, ?_, ?_, fun c hc => ?_, fun c hc i hi m hm => ?_,
    fun id site hsite => ?_, hedges ▸ h.callee_eq, hgraph ▸ h.edgeCount_eq⟩
  · rw [method?_addMethod] at hm
    split at hm
    · cases hm
      rfl
    · exact h.id_eq i m hm
  · have hnames := map_name_modifyClass (p.ensureClass d.className) d.className
      (f := fun c => { c with methods := c.methods ++ [p.nextMethod] }) fun _ => rfl
    exact hnames ▸ hensured.className_nodup
  · rw [hmethods, List.length_append, List.length_singleton, List.range_succ]
    exact (listed_addMethod_perm p d).trans (h.listed_perm.append_right _)
  · obtain ⟨b, hb, -, heq | ⟨-, heq⟩⟩ := mem_addMethod hc
    · rw [heq]
      exact hensured.increasing b hb
    · rw [heq, List.pairwise_append]
      refine ⟨hensured.increasing b hb, List.pairwise_singleton .., fun i hi j hj => ?_⟩
      rw [List.mem_singleton.1 hj]
      exact hlt b hb i hi
  · obtain ⟨b, hb, hname, heq⟩ := mem_addMethod hc
    rw [method?_addMethod] at hm
    split at hm
    next hnew =>
      cases hm
      rcases heq with heq | ⟨hclass, -⟩
      · exact absurd hnew (Nat.ne_of_lt (hlt b hb i (heq ▸ hi)))
      · exact hclass.symm
    next hold =>
      have hmem : i ∈ b.methods := by
        rcases heq with heq | ⟨-, heq⟩
        · exact heq ▸ hi
        · simpa [heq, hold] using hi
      rw [hname]
      refine hensured.className_eq b hb i hmem m ?_
      rw [method?, hmethods']
      exact hm
  · exact h.site_eq id site (callSite?_of_addMethod hsite)

/-- A method that is replaced is found in the place of the old one, and the others as before. -/
theorem method?_set {caller : MethodId} {m : Method} (hm : p.method? caller = some m) (new : Method)
    (i : MethodId) :
    method? { p with methods := p.methods.set caller new } i =
      if i = caller then some new else p.method? i := by
  have hlt : caller < p.methods.length := (List.getElem?_eq_some_iff.1 hm).1
  rw [method?, method?, List.getElem?_set]
  by_cases h : i = caller
  · rw [if_pos h.symm, if_pos hlt, if_pos h]
  · rw [if_neg (Ne.symm h), if_neg h]

/-- The call site at a position of a list that has got one more. -/
theorem getElem?_append_singleton {sites : List CallSite} {site site' : CallSite} {k : Nat}
    (h : (sites ++ [site])[k]? = some site') :
    sites[k]? = some site' ∨ k = sites.length ∧ site' = site := by
  rcases Nat.lt_trichotomy k sites.length with hlt | rfl | hgt
  · rw [List.getElem?_append_left hlt] at h
    exact .inl h
  · rw [List.getElem?_concat_length] at h
    exact .inr ⟨rfl, (Option.some.inj h).symm⟩
  · rw [List.getElem?_eq_none] at h
    · cases h
    · rw [List.length_append]
      exact hgt

/-- Adding a call appends a call site to the caller's body, which knows where it stands. -/
theorem addCall?_eq_some {q : Program} {caller : MethodId} {c : Call} {id : SiteId}
    (h : p.addCall? caller c = some (q, id)) :
    ∃ m site, p.method? caller = some m ∧ id = nextSite m caller ∧
      site.caller = caller ∧ site.index = (m.body.getD []).length ∧
      q = { p with
        methods := p.methods.set caller { m with body := some (m.body.getD [] ++ [site]) } } := by
  rw [addCall?, Option.map_eq_some_iff] at h
  obtain ⟨m, hm, heq⟩ := h
  cases heq
  exact ⟨m, _, hm, rfl, rfl, rfl, rfl⟩

/-- Adding a call keeps a program consistent: its site is the last of the caller and names it. -/
theorem Consistent.addCall? (h : p.Consistent) {q : Program} {caller : MethodId} {c : Call}
    {id : SiteId} (hq : p.addCall? caller c = some (q, id)) : q.Consistent := by
  obtain ⟨m, site, hm, -, hcaller, hindex, rfl⟩ := addCall?_eq_some hq
  have hmethod := method?_set hm { m with body := some (m.body.getD [] ++ [site]) }
  refine ⟨fun i m' hm' => ?_, h.className_nodup, ?_, h.increasing, fun b hb i hi m' hm' => ?_,
    fun id' site' hsite => ?_, h.callee_eq, h.edgeCount_eq⟩
  · rw [hmethod] at hm'
    split at hm'
    next heq =>
      cases hm'
      exact h.id_eq i m (heq ▸ hm)
    next => exact h.id_eq i m' hm'
  · rw [List.length_set]
    exact h.listed_perm
  · rw [hmethod] at hm'
    split at hm'
    next heq =>
      cases hm'
      exact h.className_eq b hb i hi m (heq ▸ hm)
    next => exact h.className_eq b hb i hi m' hm'
  · obtain ⟨m', sites, hm', hbody, hat⟩ := callSite?_eq_some_iff.1 hsite
    rw [hmethod] at hm'
    split at hm'
    next heq =>
      cases hm'
      cases hbody
      rcases getElem?_append_singleton hat with hat | ⟨hk, rfl⟩
      · cases hbody : m.body with
        | none => simp [hbody] at hat
        | some old =>
          rw [hbody] at hat
          exact h.site_eq id' site' (callSite?_eq_some_iff.2 ⟨m, old, heq ▸ hm, hbody, hat⟩)
      · exact ⟨hcaller.trans heq.symm, hindex.trans hk.symm⟩
    next => exact h.site_eq id' site' (callSite?_eq_some_iff.2 ⟨m', sites, hm', hbody, hat⟩)

/-- Adding an edge keeps a program consistent. -/
theorem Consistent.addEdge (h : p.Consistent) (site : SiteId) (callee : MethodId) :
    (p.addEdge site callee).Consistent := by
  refine ⟨h.id_eq, h.className_nodup, h.listed_perm, h.increasing, h.className_eq, h.site_eq,
    fun c e he => ?_, ?_⟩
  · have hedges : (p.addEdge site callee).edgesInto c = _ :=
      CallGraph.edgesInto_addEdge p.callGraph site callee c
    rw [hedges, List.mem_append] at he
    rcases he with he | he
    · exact h.callee_eq c e he
    · split at he
      next heq =>
        cases List.mem_singleton.1 he
        exact heq
      next => cases he
  · have hlength := CallGraph.length_flatten_addEdge p.callGraph site callee
    exact (congrArg (· + 1) h.edgeCount_eq).trans hlength.symm

/-- A call of a method adds the call site, named after the callee, and then the edge. -/
theorem addMethodCall?_eq_some {q : Program} {caller callee : MethodId} {arguments : List Argument}
    {line : Option Nat} {site : SiteId}
    (h : p.addMethodCall? caller callee arguments line = some (q, site)) :
    ∃ m r, p.method? callee = some m ∧
      p.addCall? caller ⟨m.className, m.name, arguments, line⟩ = some (r, site) ∧
      q = r.addEdge site callee := by
  simp only [addMethodCall?, Option.bind_eq_bind, Option.bind_eq_some_iff] at h
  obtain ⟨m, hm, ⟨r, site'⟩, hcall, heq⟩ := h
  cases heq
  exact ⟨m, r, hm, hcall, rfl⟩

/-! ## Every program that is built -/

/-- A step that has a result keeps the parts together. -/
theorem Consistent.run? (h : p.Consistent) {s : Step} {q : Program} (hq : s.run? p = some q) :
    q.Consistent := by
  cases s with
  | declareClass name file =>
    cases hq
    exact h.declareClass name file
  | addMethod d =>
    cases hq
    exact h.addMethod d
  | addCall caller c =>
    obtain ⟨⟨q, id⟩, hcall, rfl⟩ := Option.map_eq_some_iff.1 hq
    exact h.addCall? hcall
  | addMethodCall caller callee arguments line =>
    obtain ⟨⟨q, id⟩, hcall, rfl⟩ := Option.map_eq_some_iff.1 hq
    obtain ⟨m, r, -, hadded, rfl⟩ := addMethodCall?_eq_some hcall
    exact (h.addCall? hadded).addEdge id callee
  | addEdge site callee =>
    cases hq
    exact h.addEdge site callee

/-- A step of a builder keeps a program consistent. -/
theorem Consistent.run (h : p.Consistent) (s : Step) : (s.run p).Consistent := by
  rw [Step.run]
  cases hq : s.run? p with
  | none => exact h
  | some q => exact h.run? hq

theorem consistent_build (name : String) (steps : List Step) : (build name steps).Consistent :=
  List.foldlRecOn steps Step.run (consistent_empty name) fun _ h s _ => h.run s

/-- The methods that a step wants to find. -/
def Step.methods : Step → List MethodId
  | .addCall caller _ => [caller]
  | .addMethodCall caller callee _ _ => [caller, callee]
  | .declareClass .. | .addMethod _ | .addEdge .. => []

/-- A step fails if and only if a method that it wants to find does not exist. -/
theorem run?_eq_none_iff (p : Program) (s : Step) :
    s.run? p = none ↔ ∃ m ∈ s.methods, p.method? m = none := by
  cases s with
  | declareClass | addMethod | addEdge => simp [Step.run?, Step.methods]
  | addCall caller c => simp [Step.run?, Step.methods, addCall?]
  | addMethodCall caller callee arguments line =>
    cases hcaller : p.method? caller <;> cases hcallee : p.method? callee <;>
      simp [Step.run?, Step.methods, addMethodCall?, addCall?, hcaller, hcallee]

/-- The edge that a step records, if it has a result. -/
def Step.edge? (p : Program) : Step → Option CallEdge
  | .addMethodCall caller callee _ _ => do
    let m ← p.method? caller
    let _ ← p.method? callee
    return ⟨nextSite m caller, callee⟩
  | .addEdge site callee => some ⟨site, callee⟩
  | .declareClass .. | .addMethod _ | .addCall .. => none

/-- The edges that steps record from a program on, in the order of the steps. -/
def recorded : Program → List Step → List CallEdge
  | _, [] => []
  | p, s :: steps => (s.edge? p).toList ++ recorded (s.run p) steps

/-- A step of a builder adds to the call graph the edge that it records, if it records one. -/
theorem callGraph_run (p : Program) (s : Step) :
    (s.run p).callGraph = p.callGraph.addEdges (s.edge? p).toList := by
  cases s with
  | declareClass name file => exact (Model.declareClass_methods p name file).2
  | addMethod d => exact (Model.addMethod_methods p d).2
  | addCall caller c =>
    rw [Step.run, Step.run?, addCall?]
    cases p.method? caller <;> rfl
  | addMethodCall caller callee arguments line =>
    rw [Step.run, Step.run?, addMethodCall?, Step.edge?]
    cases hcaller : p.method? caller <;> cases hcallee : p.method? callee <;>
      simp [addCall?, hcaller, addEdge, CallGraph.addEdges]
  | addEdge site callee => rfl

/-- Steps of a builder add to the call graph the edges that they record, in order. -/
theorem callGraph_foldl_run (p : Program) (steps : List Step) :
    (steps.foldl Step.run p).callGraph = p.callGraph.addEdges (recorded p steps) := by
  induction steps generalizing p with
  | nil => rfl
  | cons s steps ih =>
    rw [List.foldl_cons, ih, callGraph_run, recorded, CallGraph.addEdges_append]

/-- The edges into a method are those that were recorded for it, in order. -/
theorem edgesInto_build (name : String) (steps : List Step) (c : MethodId) :
    (build name steps).edgesInto c = (recorded (.empty name) steps).filter (·.callee == c) := by
  rw [edgesInto, build, callGraph_foldl_run, CallGraph.edgesInto_addEdges]
  rfl

end

end Program

namespace Model

open Program

/-! ## Lowered programs -/

/-- The program is the result of steps. -/
def Built (name : String) (p : Program) : Prop := ∃ steps, p = build name steps

section
variable {name : String} {p : Program}

theorem Built.run (h : Built name p) (s : Step) : Built name (s.run p) := by
  obtain ⟨steps, rfl⟩ := h
  exact ⟨steps ++ [s], by simp [build]⟩

/-- A program that was built is still one after a call of a body has been added. -/
theorem Built.addInvocation (h : Built name p) (methods : List Method)
    (solution : List (Option Facts)) (caller : MethodId) (i : Nat) (inv : Invocation) :
    Built name (addInvocation methods solution caller p i inv) := by
  rw [Model.addInvocation]
  split
  next q site hcall =>
    have hq : q = Step.run p (.addCall caller (lowerCall solution i inv)) := by
      rw [Step.run, Step.run?, hcall]
      rfl
    exact List.foldlRecOn _ _ (hq ▸ h.run _) fun r hr callee _ => hr.run (.addEdge site callee)
  next => exact h

variable {sources : List Source}

/-- Lowering builds its program by steps. -/
theorem built_of_lower (h : lower name sources = .ok p) : Built name p := by
  obtain ⟨-, rfl⟩ := lower_eq_ok_iff.1 h
  have hdeclared : Built name (declare name sources).program :=
    declare_induction (P := fun _ p => Built name p) name ⟨[], rfl⟩
      (fun _ _ c h => h.run (.declareClass c.name c.sourceFile))
      (fun _ _ d h => h.run (.addMethod d)) sources
  exact List.foldlRecOn _ _ hdeclared fun q hq pending _ =>
    List.foldlRecOn _ _ hq fun r hr call _ => hr.addInvocation ..

theorem consistent_of_lower (h : lower name sources = .ok p) : p.Consistent := by
  obtain ⟨steps, rfl⟩ := built_of_lower h
  exact consistent_build name steps

theorem exists_of_mem_pick {methods : List Method} {arity : Nat} {callee : String} {id : MethodId}
    (h : id ∈ pick methods arity callee) : ∃ m ∈ methods, m.id = id := by
  obtain ⟨m, hm, hid, -⟩ := mem_pick_iff.1 h
  exact ⟨m, hm, hid⟩

/-- A call reaches only methods that there are. -/
theorem exists_of_mem_resolveCallees {methods : List Method} {inv : Invocation} {id : MethodId}
    (h : id ∈ resolveCallees methods inv) : ∃ m ∈ methods, m.id = id := by
  rw [resolveCallees] at h
  split at h
  next =>
    obtain ⟨callee, -, hpick⟩ := List.mem_flatMap.1 h
    exact exists_of_mem_pick hpick
  next => exact exists_of_mem_pick h

/-- An invocation in the body of a method becomes a call site. -/
theorem callSite?_of_invocation (h : lower name sources = .ok p) {caller : MethodId} {b : Body}
    {k : Nat} {call : Nat × Invocation} (hbody : bodyOf sources caller = some b)
    (hcall : b.invocations[k]? = some call) :
    ∃ file, p.callSite? ⟨caller, k⟩ =
      some (siteOf file caller (Dataflow.propagate b) (call, k)) := by
  obtain ⟨entry, hentry, hb⟩ := bodyOf_eq_some_iff.1 hbody
  have hmethod : p.method? caller = some (entry.lowered p caller) := by
    rw [lower_method? h]
    exact congrArg _ hentry
  have hsites : (entry.lowered p caller).body =
      some (sitesOf (p.sourceFileOf entry.className) caller b) :=
    congrArg (Option.map _) hb
  refine ⟨p.sourceFileOf entry.className, callSite?_eq_some_iff.2 ⟨_, _, hmethod, hsites, ?_⟩⟩
  rw [sitesOf, List.getElem?_map, List.getElem?_zipIdx, hcall, Option.map_some, Option.map_some,
    Nat.zero_add]

/-- An edge of a lowered program leads from a call site to a method, and both exist. -/
theorem exists_ends_of_lower (h : lower name sources = .ok p) {c : MethodId} {e : CallEdge}
    (he : e ∈ p.edgesInto c) :
    (∃ site, p.callSite? e.site = some site) ∧ ∃ m, p.method? e.callee = some m := by
  obtain ⟨rfl, b, call, hbody, hcall, hreach⟩ := (mem_edgesInto_lower h).1 he
  constructor
  · obtain ⟨_, hsite⟩ := callSite?_of_invocation h hbody hcall
    exact ⟨_, hsite⟩
  · obtain ⟨m, hm, hid⟩ := exists_of_mem_resolveCallees hreach
    obtain ⟨i, hi⟩ := List.mem_iff_getElem?.1 hm
    have heq : i = e.callee := ((consistent_of_lower h).id_eq i m hi).symm.trans hid
    exact ⟨m, heq ▸ hi⟩

end

/-- Whatever the steps and their order, the parts of the program fit together, every method stands
once in one class, the methods in the order of classes are all methods, and the edges into a method
are in the order in which they were recorded. A step fails exactly if it wants to find a method that
does not exist, and then changes nothing. Lowering builds its program in this way, and its edges
lead from call sites that exist to methods that exist. -/
theorem consistent_of_construction :
    (∀ (name : String) (steps : List Step),
      (build name steps).Consistent ∧
      (∀ i < (build name steps).methods.length, ∃ c ∈ (build name steps).classes,
        c.methods.count i = 1 ∧ ∀ b ∈ (build name steps).classes, i ∈ b.methods → b = c) ∧
      (build name steps).methodsInOrder.Perm (build name steps).methods ∧
      ∀ c, (build name steps).edgesInto c =
        (recorded (.empty name) steps).filter (·.callee == c)) ∧
    (∀ (p : Program) (s : Step),
      (s.run? p = none ↔ ∃ m ∈ s.methods, p.method? m = none) ∧
      (s.run? p = none → s.run p = p)) ∧
    ∀ (name : String) (sources : List Source) (p : Program), lower name sources = .ok p →
      (∃ steps, p = build name steps) ∧
      ∀ c, ∀ e ∈ p.edgesInto c,
        (∃ site, p.callSite? e.site = some site) ∧ ∃ m, p.method? e.callee = some m := by
  refine ⟨fun name steps => ?_, fun p s => ?_, fun name sources p h => ?_⟩
  · have hconsistent := consistent_build name steps
    refine ⟨hconsistent, fun i hi => ?_, hconsistent.methodsInOrder_perm,
      edgesInto_build name steps⟩
    obtain ⟨c, ⟨hc, hmem⟩, hunique⟩ := hconsistent.existsUnique_class hi
    exact ⟨c, hc, hconsistent.count_eq_one hc hmem, fun b hb hi => hunique b ⟨hb, hi⟩⟩
  · refine ⟨run?_eq_none_iff p s, fun hnone => ?_⟩
    rw [Step.run, hnone, Option.getD_none]
  · exact ⟨built_of_lower h, fun c e he => exists_ends_of_lower h he⟩

/-- Two files with methods of one class, between which another class is declared. -/
def interleavedSources : List Source :=
  [⟨"a.json", ⟨none, [
      ⟨"App", none, [⟨"run", none, [], true, some ⟨[.nop, .invoke
        ⟨"App", "digest", [.literal "MD5"], none, some 3, none⟩], none⟩⟩]⟩,
      ⟨"Log", none, [⟨"write", none, ["text"], true, none⟩]⟩]⟩⟩,
    ⟨"b.json", ⟨none, [
      ⟨"App", some "App.java", [⟨"digest", none, ["a"], true, some ⟨[.invoke
        ⟨"Log", "write", [.parameter 0], none, none, none⟩], none⟩⟩]⟩]⟩⟩]

/-- The program of `interleavedSources`. -/
def interleavedProgram : Program where
  name := "app"
  classes := [⟨"App", some "App.java", [0, 2]⟩, ⟨"Log", none, [1]⟩]
  methods := [
    ⟨0, "App.run", "App", "run", "run()", [], true,
      some [⟨0, 0, "App", "digest", [.literal "MD5"], some ⟨some "App.java", 3⟩⟩]⟩,
    ⟨1, "Log.write", "Log", "write", "write(text)", ["text"], true, none⟩,
    ⟨2, "App.digest", "App", "digest", "digest(a)", ["a"], true,
      some [⟨2, 0, "Log", "write", [.parameter 0], none⟩]⟩]
  callGraph := ⟨[[], [⟨⟨2, 0⟩, 1⟩], [⟨⟨0, 0⟩, 2⟩]], 2⟩

/-- Methods of one class with another method between them are listed together. -/
theorem consistent_of_construction_interleaved :
    lower "app" interleavedSources = .ok interleavedProgram ∧
      (∃ steps, interleavedProgram = build "app" steps) ∧
      ∃ m, interleavedProgram.method? 2 = some m := by
  have hlower : lower "app" interleavedSources = .ok interleavedProgram := by cbv
  obtain ⟨-, -, hlowered⟩ := consistent_of_construction
  obtain ⟨hbuilt, hends⟩ := hlowered "app" interleavedSources interleavedProgram hlower
  have hedge : (⟨⟨0, 0⟩, 2⟩ : CallEdge) ∈ interleavedProgram.edgesInto 2 :=
    List.mem_singleton_self _
  exact ⟨hlower, hbuilt, (hends 2 _ hedge).2⟩

end Model

end CryptoAudit
