import Mathlib.Data.List.Basic
import CryptoAudit.Model.Lowering

/-!
# What lowering produces

Lowering builds a program step by step. Here its result is described as a whole, in terms of the
methods of the models in order (`entries`): a method of the program is named by its position among
them.

* `declare_has`: what is declared are these methods, with the bodies that are to be lowered.
* `lower_eq_ok_iff`: lowering succeeds if and only if no body is defective, and then adds the bodies
  one after the other.
* `lower_method?`: a method of the program is the declared one, with one call site for each
  invocation of its body.
* `lower_edgesInto`: the edges into a method are those of all bodies that lead to it, in order.
* `callSite?_lower` and `mem_edgesInto_lower`: the invocations from which a call site and an edge
  come.
-/

namespace CryptoAudit

/-! ## Edges -/

namespace CallGraph

/-- Padding with empty lists changes no list that is asked for. -/
theorem getD_rightpad (lists : List (List CallEdge)) (n c : Nat) :
    (lists.rightpad n [])[c]?.getD [] = lists[c]?.getD [] := by
  rw [List.rightpad, List.getElem?_append]
  split
  next => rfl
  next h =>
    rw [List.getElem?_replicate, List.getElem?_eq_none (Nat.not_lt.1 h)]
    split <;> rfl

/-- An edge that is added is the last into its method, and the edges into others are as before. -/
theorem edgesInto_addEdge (g : CallGraph) (site : SiteId) (callee c : MethodId) :
    (g.addEdge site callee).edgesInto c =
      g.edgesInto c ++ if callee = c then [⟨site, callee⟩] else [] := by
  rw [edgesInto, edgesInto, ← getD_rightpad g.incoming (callee + 1), addEdge,
    List.getElem?_modify]
  split
  next h =>
    subst h
    have hlt : callee < (g.incoming.rightpad (callee + 1) []).length := by
      rw [List.length_rightpad]
      exact Nat.lt_of_lt_of_le (Nat.lt_succ_self callee) (Nat.le_max_left ..)
    rw [List.getElem?_eq_getElem hlt]
    rfl
  next => simp

/-- The graph with more edges, recorded one after the other. -/
def addEdges (g : CallGraph) (edges : List CallEdge) : CallGraph :=
  edges.foldl (fun g e => g.addEdge e.site e.callee) g

theorem addEdges_append (g : CallGraph) (es fs : List CallEdge) :
    g.addEdges (es ++ fs) = (g.addEdges es).addEdges fs := by
  simp [addEdges]

/-- Each method gets the edges that lead to it, after those that it has. -/
theorem edgesInto_addEdges (g : CallGraph) (edges : List CallEdge) (c : MethodId) :
    (g.addEdges edges).edgesInto c = g.edgesInto c ++ edges.filter (·.callee == c) := by
  induction edges generalizing g with
  | nil => simp [addEdges]
  | cons e edges ih =>
    have hstep : g.addEdges (e :: edges) = (g.addEdge e.site e.callee).addEdges edges := rfl
    rw [hstep, ih, edgesInto_addEdge, List.append_assoc]
    by_cases h : e.callee = c
    · simp [← h]
    · simp [h]

end CallGraph

/-! ## Invocations -/

/-- The invocations of a body are its statements of this kind, with their positions. -/
theorem Body.mem_invocations {b : Body} {i : Nat} {inv : Invocation} :
    (i, inv) ∈ b.invocations ↔ b.statements[i]? = some (.invoke inv) := by
  rw [Body.invocations, List.mem_filterMap]
  constructor
  · rintro ⟨⟨stmt, j⟩, hmem, hcall⟩
    cases stmt with
    | invoke =>
      cases hcall
      exact List.mk_mem_zipIdx_iff_getElem?.1 hmem
    | assign | nop => cases hcall
  · intro h
    exact ⟨(.invoke inv, i), List.mk_mem_zipIdx_iff_getElem?.2 h, rfl⟩

namespace Model

/-! ## Declarations -/

/-- A method of a model, with the source and the class in which it stands. -/
structure Entry where
  source : String
  className : String
  model : MethodModel

/-- The methods of the models in the order of sources, classes and methods. -/
def entries (sources : List Source) : List Entry :=
  sources.flatMap fun s => s.file.classes.flatMap fun c => c.methods.map (⟨s.name, c.name, ·⟩)

namespace Entry

/-- The declaration of the method. -/
def declaration (e : Entry) : Program.Declaration :=
  ⟨e.className, e.model.name, e.model.signature, e.model.parameters, e.model.isConcrete,
    e.model.body.isSome⟩

/-- The body of the method, which is to be lowered under the name of the method. -/
def pending (e : Entry) (id : MethodId) : Option PendingBody :=
  e.model.body.map (⟨id, e.source, ·⟩)

end Entry

/-- The methods of the entries, named from `n` on. -/
def methodsFrom (n : Nat) (es : List Entry) : List Method :=
  (es.zipIdx n).map fun e => e.1.declaration.toMethod e.2

/-- The bodies of the entries, named from `n` on. -/
def bodiesFrom (n : Nat) (es : List Entry) : List PendingBody :=
  (es.zipIdx n).filterMap fun e => e.1.pending e.2

/-- The entries have been declared, in this order and no others. -/
structure Declared.Has (d : Declared) (es : List Entry) : Prop where
  methods : d.program.methods = methodsFrom 0 es
  bodies : d.bodies = bodiesFrom 0 es
  callGraph : d.program.callGraph = .empty

theorem ensureClass_methods (p : Program) (name : String) :
    (p.ensureClass name).methods = p.methods ∧ (p.ensureClass name).callGraph = p.callGraph := by
  unfold Program.ensureClass
  split <;> exact ⟨rfl, rfl⟩

theorem declareClass_methods (p : Program) (name : String) (file : Option String) :
    (p.declareClass name file).methods = p.methods ∧
      (p.declareClass name file).callGraph = p.callGraph := by
  cases file <;> exact ensureClass_methods p name

/-- A method that is added is the last one, and the call graph is as before. -/
theorem addMethod_methods (p : Program) (d : Program.Declaration) :
    (p.addMethod d).methods = p.methods ++ [d.toMethod p.methods.length] ∧
      (p.addMethod d).callGraph = p.callGraph := by
  obtain ⟨hmethods, hgraph⟩ := ensureClass_methods p d.className
  exact ⟨congrArg (· ++ [d.toMethod p.methods.length]) hmethods, hgraph⟩

section
variable {d : Declared} {es : List Entry}

/-- Adding a method of a model adds its entry. -/
theorem Declared.Has.addMethod (h : d.Has es) (source className : String) (m : MethodModel) :
    (d.addMethod source className m).Has (es ++ [⟨source, className, m⟩]) := by
  have hlength : d.program.methods.length = es.length := by
    rw [h.methods, methodsFrom, List.length_map, List.length_zipIdx]
  obtain ⟨hmethods, hgraph⟩ := addMethod_methods d.program
    ⟨className, m.name, m.signature, m.parameters, m.isConcrete, m.body.isSome⟩
  refine ⟨?_, ?_, hgraph.trans h.callGraph⟩
  · rw [Declared.addMethod, hmethods, hlength, h.methods]
    simp [methodsFrom, List.zipIdx_append, Entry.declaration]
  · simp only [Declared.addMethod, Program.nextMethod, h.bodies, hlength]
    cases hbody : m.body <;>
      simp [bodiesFrom, List.zipIdx_append, Entry.pending, hbody]

/-- Adding the methods of a class adds their entries, in order. -/
theorem Declared.Has.addMethods (source className : String) :
    ∀ (ms : List MethodModel) {d : Declared} {es : List Entry}, d.Has es →
      (ms.foldl (·.addMethod source className ·) d).Has (es ++ ms.map (⟨source, className, ·⟩))
  | [], _, _, h => by simpa using h
  | m :: ms, _, _, h => by
    simpa using (h.addMethod source className m).addMethods source className ms

/-- Adding the classes of a file adds the entries of their methods, in order. -/
theorem Declared.Has.addClasses (source : String) :
    ∀ (cs : List ClassModel) {d : Declared} {es : List Entry}, d.Has es →
      (cs.foldl (Declared.addClass source) d).Has
        (es ++ cs.flatMap fun c => c.methods.map (⟨source, c.name, ·⟩))
  | [], _, _, h => by simpa using h
  | c :: cs, d, es, h => by
    obtain ⟨hmethods, hgraph⟩ := declareClass_methods d.program c.name c.sourceFile
    have hclass :
        Declared.Has { d with program := d.program.declareClass c.name c.sourceFile } es :=
      ⟨hmethods.trans h.methods, h.bodies, hgraph.trans h.callGraph⟩
    simpa [Declared.addClass] using
      (hclass.addMethods source c.name c.methods).addClasses source cs

/-- What is declared are the methods of the models, in order. -/
theorem declare_has (name : String) (sources : List Source) :
    (declare name sources).Has (entries sources) := by
  have key : ∀ (ss : List Source) {d : Declared} {es : List Entry}, d.Has es →
      (ss.foldl (fun d s => s.file.classes.foldl (Declared.addClass s.name) d) d).Has
        (es ++ entries ss) := by
    intro ss
    induction ss with
    | nil => intro d es h; simpa [entries] using h
    | cons s ss ih =>
      intro d es h
      simpa [entries] using ih (h.addClasses s.name s.file.classes)
  have hempty : Declared.Has ⟨.empty name, []⟩ [] := ⟨rfl, rfl, rfl⟩
  exact key sources hempty

end

/-! ## Bodies -/

/-- The call site that an invocation becomes. -/
def siteOf (file : Option String) (caller : MethodId) (solution : List (Option Facts))
    (call : (Nat × Invocation) × Nat) : CallSite where
  caller
  index := call.2
  declaringType := call.1.2.declaringType
  methodName := call.1.2.method
  arguments := call.1.2.args.map (Dataflow.lowerOperand solution call.1.1)
  location := call.1.2.line.map (⟨file, ·⟩)

/-- The edges of an invocation. -/
def edgesAt (methods : List Method) (caller : MethodId) (call : (Nat × Invocation) × Nat) :
    List CallEdge :=
  (resolveCallees methods call.1.2).map (⟨⟨caller, call.2⟩, ·⟩)

/-- The call sites of a body. -/
def sitesOf (file : Option String) (caller : MethodId) (b : Body) : List CallSite :=
  b.invocations.zipIdx.map (siteOf file caller (Dataflow.propagate b))

/-- The edges of a body. -/
def edgesOf (methods : List Method) (caller : MethodId) (b : Body) : List CallEdge :=
  b.invocations.zipIdx.flatMap (edgesAt methods caller)

/-- The edges of a body come from its calls and lead to the methods that these may reach. -/
theorem mem_edgesOf {methods : List Method} {caller : MethodId} {b : Body} {edge : CallEdge} :
    edge ∈ edgesOf methods caller b ↔ edge.caller = caller ∧
      ∃ call, b.invocations[edge.site.index]? = some call ∧
        edge.callee ∈ resolveCallees methods call.2 := by
  rw [edgesOf, List.mem_flatMap]
  constructor
  · rintro ⟨⟨call, k⟩, hmem, hedge⟩
    obtain ⟨callee, hcallee, rfl⟩ := List.mem_map.1 hedge
    exact ⟨rfl, call, List.mk_mem_zipIdx_iff_getElem?.1 hmem, hcallee⟩
  · rintro ⟨rfl, call, hcall, hcallee⟩
    exact ⟨(call, edge.site.index), List.mk_mem_zipIdx_iff_getElem?.2 hcall,
      List.mem_map.2 ⟨edge.callee, hcallee, rfl⟩⟩

/-- Adding edges one by one adds all of them to the call graph. -/
theorem foldl_addEdge (p : Program) (site : SiteId) (callees : List MethodId) :
    callees.foldl (·.addEdge site ·) p =
      { p with callGraph := p.callGraph.addEdges (callees.map (⟨site, ·⟩)) } := by
  induction callees generalizing p with
  | nil => rfl
  | cons c callees ih => exact ih (p.addEdge site c)

section
variable {methods : List Method} {solution : List (Option Facts)} {caller : MethodId}
  {p : Program} {m : Method} {sites : List CallSite}

/-- An invocation becomes a call site at the end of the body. -/
theorem addInvocation_eq (hm : p.method? caller = some m) (hbody : m.body = some sites)
    (call : Nat × Invocation) :
    addInvocation methods solution caller p call.1 call.2 =
      { p with
        methods := p.methods.set caller { m with
          body := some (sites ++ [siteOf (p.sourceFileOf m.className) caller solution
            (call, sites.length)]) }
        callGraph := p.callGraph.addEdges (edgesAt methods caller (call, sites.length)) } := by
  simp only [addInvocation, Program.addCall?, hm, Option.map_some, foldl_addEdge]
  simp [Program.nextSite, hbody, siteOf, edgesAt, lowerCall]

/-- Invocations become call sites at the end of the body, in order. -/
theorem foldl_addInvocation (calls : List (Nat × Invocation)) (hm : p.method? caller = some m)
    (hbody : m.body = some sites) :
    calls.foldl (fun q call => addInvocation methods solution caller q call.1 call.2) p =
      { p with
        methods := p.methods.set caller { m with
          body := some (sites ++ (calls.zipIdx sites.length).map
            (siteOf (p.sourceFileOf m.className) caller solution)) }
        callGraph := p.callGraph.addEdges
          ((calls.zipIdx sites.length).flatMap (edgesAt methods caller)) } := by
  induction calls generalizing p m sites with
  | nil =>
    obtain ⟨hlt, rfl⟩ := List.getElem?_eq_some_iff.1 hm
    have hself : { p.methods[caller] with body := some sites } = p.methods[caller] := by
      rw [← hbody]
    simp [CallGraph.addEdges, hself]
  | cons call calls ih =>
    obtain ⟨hlt, -⟩ := List.getElem?_eq_some_iff.1 hm
    rw [List.foldl_cons, addInvocation_eq hm hbody, ih (by simp [Program.method?, hlt]; rfl) rfl]
    simp [Program.sourceFileOf, List.zipIdx_cons, CallGraph.addEdges]

/-- A method without call sites gets those of its body, and the graph gets its edges. -/
theorem addBody_eq {pending : PendingBody} (hm : p.method? pending.method = some m)
    (hbody : m.body = some []) :
    addBody methods p pending =
      { p with
        methods := p.methods.set pending.method { m with
          body := some (sitesOf (p.sourceFileOf m.className) pending.method pending.body) }
        callGraph := p.callGraph.addEdges (edgesOf methods pending.method pending.body) } := by
  rw [addBody, foldl_addInvocation _ hm hbody]
  simp [sitesOf, edgesOf]

/-- The method with the call sites of its body, if its body is one of those. -/
def fill (p : Program) (bodies : List PendingBody) (id : MethodId) (m : Method) : Method :=
  match bodies.find? (·.method == id) with
  | some pending => { m with body := some (sitesOf (p.sourceFileOf m.className) id pending.body) }
  | none => m

/-- A method without a body to fill in is left as it is. -/
theorem fill_of_notMem {bodies : List PendingBody} {id : MethodId}
    (h : id ∉ bodies.map (·.method)) (p : Program) (m : Method) : fill p bodies id m = m := by
  have hnone : bodies.find? (·.method == id) = none := by
    rw [List.find?_eq_none]
    intro pending hmem heq
    exact h (List.mem_map.2 ⟨pending, hmem, eq_of_beq heq⟩)
  rw [fill, hnone]

/-- The first body is filled into its method. -/
theorem fill_cons_self (p : Program) (pending : PendingBody) (bodies : List PendingBody)
    (m : Method) :
    fill p (pending :: bodies) pending.method m = { m with
      body := some (sitesOf (p.sourceFileOf m.className) pending.method pending.body) } := by
  simp [fill]

/-- The first body is not filled into other methods. -/
theorem fill_cons_ne {pending : PendingBody} {id : MethodId} (h : id ≠ pending.method)
    (p : Program) (bodies : List PendingBody) (m : Method) :
    fill p (pending :: bodies) id m = fill p bodies id m := by
  have hbeq : (pending.method == id) = false := beq_eq_false_iff_ne.2 (Ne.symm h)
  simp [fill, hbeq]

/-- The result `q` of adding bodies to a program. -/
structure Filled (methods : List Method) (bodies : List PendingBody) (p q : Program) : Prop where
  name : q.name = p.name
  classes : q.classes = p.classes
  method? : ∀ i, q.method? i = (p.method? i).map (fill p bodies i)
  callGraph : q.callGraph = p.callGraph.addEdges
    (bodies.flatMap fun pending => edgesOf methods pending.method pending.body)

/-- Bodies of different methods that have no call sites yet fill these methods. -/
theorem foldl_addBody (bodies : List PendingBody) (hnodup : (bodies.map (·.method)).Nodup)
    (hempty : ∀ pending ∈ bodies, ∃ m, p.method? pending.method = some m ∧ m.body = some []) :
    Filled methods bodies p (bodies.foldl (addBody methods) p) := by
  induction bodies generalizing p with
  | nil =>
    refine ⟨rfl, rfl, fun i => ?_, rfl⟩
    cases h : p.method? i <;> simp [fill, h]
  | cons pending bodies ih =>
    obtain ⟨m, hm, hbody⟩ := hempty pending (List.mem_cons_self ..)
    obtain ⟨hnew, hnodup⟩ := List.nodup_cons.1 hnodup
    have hlt : pending.method < p.methods.length := (List.getElem?_eq_some_iff.1 hm).1
    have hadd := @addBody_eq methods p m pending hm hbody
    have hself : (addBody methods p pending).method? pending.method = some { m with
        body := some (sitesOf (p.sourceFileOf m.className) pending.method pending.body) } := by
      simp [hadd, Program.method?, hlt]
    -- The other methods stay as they are, so that their bodies can still be added.
    have hother : ∀ i, i ≠ pending.method →
        (addBody methods p pending).method? i = p.method? i := by
      intro i hi
      simp [hadd, Program.method?, List.getElem?_set_ne (Ne.symm hi)]
    have hrest : ∀ other ∈ bodies, ∃ m', (addBody methods p pending).method? other.method =
        some m' ∧ m'.body = some [] := by
      intro other hmem
      obtain ⟨m', hm', hbody'⟩ := hempty other (List.mem_cons_of_mem _ hmem)
      have hne : other.method ≠ pending.method := fun heq =>
        hnew (List.mem_map.2 ⟨other, hmem, heq⟩)
      exact ⟨m', by rw [hother _ hne, hm'], hbody'⟩
    have hfilled := ih hnodup hrest
    have hclasses : (addBody methods p pending).classes = p.classes := by rw [hadd]
    refine ⟨?_, ?_, fun i => ?_, ?_⟩
    · rw [List.foldl_cons, hfilled.name, hadd]
    · rw [List.foldl_cons, hfilled.classes, hclasses]
    · rw [List.foldl_cons, hfilled.method?]
      by_cases hi : i = pending.method
      · subst hi
        rw [hself, hm, Option.map_some, Option.map_some, fill_of_notMem hnew, fill_cons_self]
      · rw [hother i hi]
        refine congrArg (Option.map · (p.method? i)) (funext fun m' => ?_)
        rw [fill_cons_ne hi, fill, fill]
        simp only [Program.sourceFileOf, hclasses]
    · rw [List.foldl_cons, hfilled.callGraph, List.flatMap_cons, CallGraph.addEdges_append, hadd]

/-- Adding bodies succeeds if and only if none of them is defective. -/
theorem foldlM_addBody? (bodies : List PendingBody) {q : Program} :
    bodies.foldlM (addBody? methods) p = .ok q ↔
      (∀ pending ∈ bodies, pending.body.defect? = none) ∧
        q = bodies.foldl (addBody methods) p := by
  induction bodies generalizing p with
  | nil => simp [pure, Except.pure, eq_comm]
  | cons pending bodies ih =>
    rw [List.foldlM_cons, List.foldl_cons, List.forall_mem_cons, addBody?]
    cases hdefect : pending.body.defect? with
    | none =>
      rw [and_assoc, ← ih]
      simp [bind, Except.bind]
    | some defect => simp [bind, Except.bind]

end

/-! ## Callees -/

/-- The methods of a name that fit the number of arguments, or else the only one of this name. -/
theorem pick_eq (methods : List Method) (arity : Nat) (name : String) :
    pick methods arity name =
      let candidates := methods.filter (·.qualifiedName == name)
      let fitting := candidates.filter (·.parameters.length == arity)
      if fitting.length = 0 ∧ candidates.length = 1 then candidates.map (·.id)
      else fitting.map (·.id) := by
  rw [pick]
  generalize methods.filter (·.qualifiedName == name) = candidates
  dsimp only
  generalize candidates.filter (·.parameters.length == arity) = fitting
  rcases fitting with _ | ⟨_, _⟩
  · rcases candidates with _ | ⟨_, _ | ⟨_, _⟩⟩ <;> rfl
  · simp

/-- A name means the methods that have it and as many parameters, or else the only one that has
it. -/
theorem mem_pick_iff {methods : List Method} {arity : Nat} {name : String} {id : MethodId} :
    id ∈ pick methods arity name ↔
    ∃ m ∈ methods, m.id = id ∧ m.qualifiedName = name ∧
      (m.parameters.length = arity ∨ methods.filter (·.qualifiedName == name) = [m]) := by
  have hcandidate : ∀ m, m ∈ methods.filter (·.qualifiedName == name) ↔
      m ∈ methods ∧ m.qualifiedName = name := by
    intro m
    rw [List.mem_filter, beq_iff_eq]
  rw [pick_eq]
  generalize methods.filter (·.qualifiedName == name) = candidates at hcandidate ⊢
  dsimp only
  split
  next hsole =>
    obtain ⟨only, rfl⟩ := List.length_eq_one_iff.1 hsole.2
    obtain ⟨hmem, hname⟩ := (hcandidate only).1 (List.mem_singleton.2 rfl)
    rw [List.map_singleton, List.mem_singleton]
    constructor
    · rintro rfl
      exact ⟨only, hmem, rfl, hname, .inr rfl⟩
    · rintro ⟨m, hm, rfl, hmname, -⟩
      rw [List.mem_singleton.1 ((hcandidate m).2 ⟨hm, hmname⟩)]
  next hmany =>
    constructor
    · intro hid
      obtain ⟨m, hm, rfl⟩ := List.mem_map.1 hid
      obtain ⟨hm, hfits⟩ := List.mem_filter.1 hm
      obtain ⟨hmem, hname⟩ := (hcandidate m).1 hm
      exact ⟨m, hmem, rfl, hname, .inl (beq_iff_eq.1 hfits)⟩
    · rintro ⟨m, hm, rfl, hname, hfits⟩
      refine List.mem_map_of_mem (List.mem_filter.2 ⟨(hcandidate m).2 ⟨hm, hname⟩, ?_⟩)
      rcases hfits with hfits | rfl
      · exact beq_iff_eq.2 hfits
      · -- a single candidate that does not fit is picked in the other case
        by_contra hmisfit
        exact hmany ⟨by simp [hmisfit], rfl⟩

/-- Which methods a name may mean depends on their names and parameters only. -/
theorem pick_map {f : Method → Method} {σ : MethodId → MethodId}
    (hname : ∀ m, (f m).qualifiedName = m.qualifiedName)
    (hparameters : ∀ m, (f m).parameters = m.parameters) (hid : ∀ m, (f m).id = σ m.id)
    (methods : List Method) (arity : Nat) (name : String) :
    pick (methods.map f) arity name = (pick methods arity name).map σ := by
  have hids : ∀ ms : List Method, (ms.map f).map (·.id) = (ms.map (·.id)).map σ := by
    intro ms
    rw [List.map_map, List.map_map]
    exact List.map_congr_left fun m _ => hid m
  simp only [pick_eq, List.filter_map, Function.comp_def, hname, hparameters, List.length_map, hids]
  split <;> rfl

/-- Renaming methods renames those that a call may reach. -/
theorem resolveCallees_map {f : Method → Method} {σ : MethodId → MethodId}
    (hname : ∀ m, (f m).qualifiedName = m.qualifiedName)
    (hparameters : ∀ m, (f m).parameters = m.parameters) (hid : ∀ m, (f m).id = σ m.id)
    (methods : List Method) (inv : Invocation) :
    resolveCallees (methods.map f) inv = (resolveCallees methods inv).map σ := by
  have hpick := pick_map hname hparameters hid methods
  unfold resolveCallees
  split
  next names _ =>
    rw [List.map_flatMap]
    exact congrArg (names.flatMap ·) (funext (hpick _))
  next => exact hpick _ _

/-- A method without its body. -/
def eraseBody (m : Method) : Method := { m with body := none }

/-- Which methods a call may reach does not depend on their bodies. -/
theorem resolveCallees_eraseBody (methods : List Method) (inv : Invocation) :
    resolveCallees (methods.map eraseBody) inv = resolveCallees methods inv := by
  have hmap := resolveCallees_map (f := eraseBody) (σ := id) (fun _ => rfl) (fun _ => rfl)
    (fun _ => rfl) methods inv
  rwa [List.map_id] at hmap

/-! ## The lowered program -/

theorem getElem?_methodsFrom (es : List Entry) (i : Nat) :
    (methodsFrom 0 es)[i]? = es[i]?.map (·.declaration.toMethod i) := by
  simp only [methodsFrom, List.getElem?_map, List.getElem?_zipIdx, Option.map_map, Nat.zero_add]
  rfl

/-- The bodies to fill in are those of the entries, with their positions. -/
theorem mem_bodiesFrom {es : List Entry} {pending : PendingBody} :
    pending ∈ bodiesFrom 0 es ↔ ∃ e, es[pending.method]? = some e ∧
      e.source = pending.source ∧ e.model.body = some pending.body := by
  rw [bodiesFrom, List.mem_filterMap]
  constructor
  · rintro ⟨⟨e, i⟩, hmem, hpending⟩
    obtain ⟨b, hb, rfl⟩ := Option.map_eq_some_iff.1 hpending
    exact ⟨e, List.mk_mem_zipIdx_iff_getElem?.1 hmem, rfl, hb⟩
  · rintro ⟨e, he, hsource, hb⟩
    refine ⟨(e, pending.method), List.mk_mem_zipIdx_iff_getElem?.2 he, ?_⟩
    rw [Entry.pending, hb, hsource, Option.map_some]

/-- Each method has one body at most. -/
theorem nodup_bodiesFrom (es : List Entry) : ((bodiesFrom 0 es).map (·.method)).Nodup := by
  have hsublist : ∀ (es : List Entry) (n : Nat),
      ((bodiesFrom n es).map (·.method)).Sublist (List.range' n es.length) := by
    intro es
    induction es with
    | nil => exact fun n => .slnil
    | cons e es ih =>
      intro n
      cases hbody : e.model.body with
      | none =>
        simpa [bodiesFrom, Entry.pending, hbody, List.range'_succ] using (ih (n + 1)).cons n
      | some b =>
        simpa [bodiesFrom, Entry.pending, hbody, List.range'_succ] using (ih (n + 1)).cons_cons n
  exact (hsublist es 0).nodup List.nodup_range'

/-- The body to fill into a method is that of the entry at its position. -/
theorem find?_bodiesFrom (es : List Entry) (i : Nat) :
    (bodiesFrom 0 es).find? (·.method == i) = es[i]?.bind (·.pending i) := by
  cases hfind : (bodiesFrom 0 es).find? (·.method == i) with
  | some pending =>
    have hmethod : (pending.method == i) = true := by simpa using List.find?_some hfind
    obtain rfl := eq_of_beq hmethod
    obtain ⟨e, he, hsource, hb⟩ := mem_bodiesFrom.1 (List.mem_of_find?_eq_some hfind)
    rw [he, Option.bind_some, Entry.pending, hb, hsource, Option.map_some]
  | none =>
    refine (Option.eq_none_iff_forall_ne_some.2 fun pending hpending => ?_).symm
    obtain ⟨e, he, hpending⟩ := Option.bind_eq_some_iff.1 hpending
    obtain ⟨b, hb, rfl⟩ := Option.map_eq_some_iff.1 hpending
    have hmem : (⟨i, e.source, b⟩ : PendingBody) ∈ bodiesFrom 0 es :=
      mem_bodiesFrom.2 ⟨e, he, rfl, hb⟩
    exact List.find?_eq_none.1 hfind _ hmem (beq_self_eq_true i)

/-- The method of the program that an entry becomes, under its name. -/
def Entry.lowered (p : Program) (id : MethodId) (e : Entry) : Method :=
  { e.declaration.toMethod id with
    body := e.model.body.map (sitesOf (p.sourceFileOf e.className) id) }

/-- The body of a method, by its name in the program. -/
def bodyOf (sources : List Source) (id : MethodId) : Option Body :=
  (entries sources)[id]?.bind (·.model.body)

theorem bodyOf_eq_some_iff {sources : List Source} {id : MethodId} {b : Body} :
    bodyOf sources id = some b ↔ ∃ e, (entries sources)[id]? = some e ∧ e.model.body = some b := by
  rw [bodyOf, Option.bind_eq_some_iff]

/-- The edges of the entries' bodies, in order. -/
def edgesOfEntries (methods : List Method) (es : List Entry) : List CallEdge :=
  (bodiesFrom 0 es).flatMap fun pending => edgesOf methods pending.method pending.body

section
variable {name : String} {sources : List Source} {p : Program}

/-- Lowering succeeds if and only if no body is defective, and then adds the bodies in order. -/
theorem lower_eq_ok_iff :
    lower name sources = .ok p ↔
      (∀ pending ∈ bodiesFrom 0 (entries sources), pending.body.defect? = none) ∧
        p = (bodiesFrom 0 (entries sources)).foldl
          (addBody (declare name sources).program.methods) (declare name sources).program := by
  rw [lower, foldlM_addBody?, (declare_has name sources).bodies]

/-- Lowering succeeds if and only if no method has a defective body. -/
theorem lower_ok_iff (name : String) (sources : List Source) :
    (∃ p, lower name sources = .ok p) ↔
      ∀ e ∈ entries sources, ∀ b, e.model.body = some b → b.defect? = none := by
  simp only [lower_eq_ok_iff, exists_and_left, exists_eq, and_true]
  constructor
  · intro h e he b hb
    obtain ⟨i, hi⟩ := List.mem_iff_getElem?.1 he
    exact h ⟨i, e.source, b⟩ (mem_bodiesFrom.2 ⟨e, hi, rfl, hb⟩)
  · intro h pending hmem
    obtain ⟨e, he, -, hb⟩ := mem_bodiesFrom.1 hmem
    exact h e (List.mem_of_getElem? he) pending.body hb

/-- A lowered program has the declared methods, with their bodies filled in. -/
theorem filled_of_lower (h : lower name sources = .ok p) :
    Filled (declare name sources).program.methods (bodiesFrom 0 (entries sources))
      (declare name sources).program p := by
  obtain ⟨-, rfl⟩ := lower_eq_ok_iff.1 h
  refine foldl_addBody _ (nodup_bodiesFrom _) fun pending hmem => ?_
  obtain ⟨e, he, -, hbody⟩ := mem_bodiesFrom.1 hmem
  refine ⟨e.declaration.toMethod pending.method, ?_, ?_⟩
  · rw [Program.method?, (declare_has name sources).methods, getElem?_methodsFrom, he,
      Option.map_some]
  · simp [Entry.declaration, Program.Declaration.toMethod, hbody]

/-- A method of the program is the declared one with the call sites of its body. -/
theorem lower_method? (h : lower name sources = .ok p) (i : MethodId) :
    p.method? i = (entries sources)[i]?.map (Entry.lowered p i) := by
  have hfilled := filled_of_lower h
  have hfile : p.sourceFileOf = (declare name sources).program.sourceFileOf := by
    funext className
    rw [Program.sourceFileOf, hfilled.classes, Program.sourceFileOf]
  rw [hfilled.method?, Program.method?, (declare_has name sources).methods, getElem?_methodsFrom]
  cases he : (entries sources)[i]? with
  | none => rfl
  | some e =>
    rw [Option.map_some, Option.map_some, Option.map_some, fill, find?_bodiesFrom, he,
      Option.bind_some, Entry.lowered, hfile]
    cases hbody : e.model.body <;>
      simp [Entry.pending, hbody, Entry.declaration, Program.Declaration.toMethod]

/-- Lowering keeps the methods that a call may reach. -/
theorem resolveCallees_lower (h : lower name sources = .ok p) (inv : Invocation) :
    resolveCallees p.methods inv = resolveCallees (declare name sources).program.methods inv := by
  rw [← resolveCallees_eraseBody p.methods,
    ← resolveCallees_eraseBody (declare name sources).program.methods]
  congr 1
  refine List.ext_getElem? fun i => ?_
  have hmethod : p.methods[i]? = _ := lower_method? h i
  rw [List.getElem?_map, List.getElem?_map, hmethod, (declare_has name sources).methods,
    getElem?_methodsFrom]
  cases (entries sources)[i]? <;> rfl

/-- The edges into a method are those of the bodies that lead to it. -/
theorem lower_edgesInto (h : lower name sources = .ok p) (c : MethodId) :
    p.edgesInto c = (edgesOfEntries p.methods (entries sources)).filter (·.callee == c) := by
  have hedges : edgesOf p.methods = edgesOf (declare name sources).program.methods := by
    funext caller b
    refine congrArg (b.invocations.zipIdx.flatMap ·) (funext fun call => ?_)
    rw [edgesAt, edgesAt, resolveCallees_lower h]
  rw [Program.edgesInto, (filled_of_lower h).callGraph, CallGraph.edgesInto_addEdges,
    (declare_has name sources).callGraph, edgesOfEntries, hedges]
  rfl

/-- A call site is what an invocation in the body of its method becomes. -/
theorem callSite?_lower (h : lower name sources = .ok p) {id : SiteId} {site : CallSite}
    (hsite : p.callSite? id = some site) :
    ∃ file b call, bodyOf sources id.method = some b ∧ b.invocations[id.index]? = some call ∧
      site = siteOf file id.method (Dataflow.propagate b) (call, id.index) := by
  simp only [Program.callSite?, lower_method? h, Option.bind_eq_bind, Option.bind_eq_some_iff,
    Option.map_eq_some_iff] at hsite
  obtain ⟨_, ⟨e, he, rfl⟩, sites, hsites, hindex⟩ := hsite
  obtain ⟨b, hb, rfl⟩ := Option.map_eq_some_iff.1 hsites
  rw [sitesOf, List.getElem?_map, List.getElem?_zipIdx, Option.map_map, Nat.zero_add] at hindex
  obtain ⟨call, hcall, rfl⟩ := Option.map_eq_some_iff.1 hindex
  exact ⟨_, b, call, bodyOf_eq_some_iff.2 ⟨e, he, hb⟩, hcall, rfl⟩

/-- An edge comes from an invocation that may reach the method to which it leads. -/
theorem mem_edgesInto_lower (h : lower name sources = .ok p) {c : MethodId} {edge : CallEdge} :
    edge ∈ p.edgesInto c ↔ edge.callee = c ∧ ∃ b call, bodyOf sources edge.caller = some b ∧
      b.invocations[edge.site.index]? = some call ∧ c ∈ resolveCallees p.methods call.2 := by
  rw [lower_edgesInto h, List.mem_filter, and_comm, beq_iff_eq]
  refine and_congr_right fun hcallee => ?_
  rw [edgesOfEntries, List.mem_flatMap]
  constructor
  · rintro ⟨pending, hmem, hedge⟩
    obtain ⟨hcaller, call, hcall, hreach⟩ := mem_edgesOf.1 hedge
    obtain ⟨e, he, -, hb⟩ := mem_bodiesFrom.1 hmem
    exact ⟨pending.body, call, bodyOf_eq_some_iff.2 ⟨e, hcaller ▸ he, hb⟩, hcall,
      hcallee ▸ hreach⟩
  · rintro ⟨b, call, hbody, hcall, hreach⟩
    obtain ⟨e, he, hb⟩ := bodyOf_eq_some_iff.1 hbody
    exact ⟨⟨edge.caller, e.source, b⟩, mem_bodiesFrom.2 ⟨e, he, rfl, hb⟩,
      mem_edgesOf.2 ⟨rfl, call, hcall, hcallee ▸ hreach⟩⟩

end

end Model

end CryptoAudit
