import CryptoAudit.Proofs.Resolution.Recursion

/-!
# Grounding chains

A grounding chain of a parameter is a sequence of edges that leads from its method back to a caller
that passes a literal (`GroundingChain`). The methods whose parameters it goes through are distinct,
and they are no more than the depth bound allows. A parameter is resolved if and only if it has a
grounding chain. The value is then that of the first chain, where chains are compared by the
positions of their edges (`resolve_parameter_eq_first_chain`).

The search extends a path method by method, while a chain is judged as a whole. Between the two
stands `Route`, a chain that is judged link by link as the search does. `searchEdges` finds the
first route (`searchEdges_finds`), and routes from an owner are its grounding chains
(`route_singleton_iff`).
-/

namespace CryptoAudit.Resolution

/-- An edge of a chain, with its position among the edges into the method that it calls. -/
structure Link where
  position : Nat
  edge : CallEdge
deriving DecidableEq

/-- The edges of a chain lead from a parameter of a method back to a caller that passes a literal.
Each edge but the last passes a parameter of its caller, which the next edge is read for. -/
inductive Leads (p : Program) : MethodId → Nat → List Link → String → Prop
  | literal {m : MethodId} {i n : Nat} {edge : CallEdge} {value : String}
      (hedge : (p.edgesInto m)[n]? = some edge)
      (hpassed : (p.callSite? edge.site).bind (·.arguments[i]?) = some (.literal value)) :
      Leads p m i [⟨n, edge⟩] value
  | parameter {m : MethodId} {i j n : Nat} {edge : CallEdge} {chain : List Link} {value : String}
      (hedge : (p.edgesInto m)[n]? = some edge)
      (hpassed : (p.callSite? edge.site).bind (·.arguments[i]?) = some (.parameter j))
      (hrest : Leads p edge.caller j chain value) : Leads p m i (⟨n, edge⟩ :: chain) value

/-- The methods on the way from the owner to the literal. The caller that passes the literal is
only called through and does not count. -/
def chainMethods (owner : MethodId) (chain : List Link) : List MethodId :=
  owner :: chain.dropLast.map (·.edge.caller)

/-- The methods that the value of a chain passes through, from the one that holds the literal to
the owner. -/
def chainTrace (owner : MethodId) (chain : List Link) : List MethodId :=
  (owner :: chain.map (·.edge.caller)).reverse

/-- Chains are compared by the positions of their edges, from the owner on. -/
def Precedes (chain other : List Link) : Prop :=
  List.Lex (· < ·) (chain.map (·.position)) (other.map (·.position))

/-- A chain that the search may follow to a literal. -/
structure GroundingChain (p : Program) (bound : DepthBound) (owner : MethodId) (parameter : Nat)
    (chain : List Link) (value : String) : Prop where
  leads : Leads p owner parameter chain value
  distinct : (chainMethods owner chain).Nodup
  bounded : ∀ d, bound = some d → chain.length ≤ max 1 d

/-- A grounding chain that precedes all others. -/
structure FirstChain (p : Program) (bound : DepthBound) (owner : MethodId) (parameter : Nat)
    (chain : List Link) (value : String) : Prop where
  grounds : GroundingChain p bound owner parameter chain value
  first : ∀ other otherValue, GroundingChain p bound owner parameter other otherValue →
    other = chain ∨ Precedes chain other

/-- A chain that may extend a path: none of its links but the last leads back to the path or goes
beyond the depth bound. -/
inductive Route (p : Program) (bound : DepthBound) :
    List MethodId → Nat → List Link → String → Prop
  | literal {m : MethodId} {path : List MethodId} {i n : Nat} {edge : CallEdge} {value : String}
      (hedge : (p.edgesInto m)[n]? = some edge)
      (hpassed : (p.callSite? edge.site).bind (·.arguments[i]?) = some (.literal value)) :
      Route p bound (m :: path) i [⟨n, edge⟩] value
  | parameter {m : MethodId} {path : List MethodId} {i j n : Nat} {edge : CallEdge}
      {chain : List Link} {value : String} (hedge : (p.edgesInto m)[n]? = some edge)
      (hpassed : (p.callSite? edge.site).bind (·.arguments[i]?) = some (.parameter j))
      (hlive : ¬ (edge.caller ∈ m :: path ∨ bound.reached (m :: path).length))
      (hrest : Route p bound (edge.caller :: m :: path) j chain value) :
      Route p bound (m :: path) i (⟨n, edge⟩ :: chain) value

/-! ## Routes from an owner are grounding chains -/

section
variable {p : Program} {bound : DepthBound} {m : MethodId} {path : List MethodId} {i : Nat}
  {chain : List Link} {value : String}

theorem Leads.ne_nil (h : Leads p m i chain value) : chain ≠ [] := by
  cases h <;> exact List.cons_ne_nil _ _

/-- A chain leads to one literal only. -/
theorem Leads.value_unique (h : Leads p m i chain value) {w : String}
    (hw : Leads p m i chain w) : value = w := by
  induction h with
  | literal hedge hpassed =>
    cases hw with
    | literal _ hpassed' =>
      cases hpassed.symm.trans hpassed'
      rfl
    | parameter _ _ hrest => exact absurd rfl hrest.ne_nil
  | parameter hedge hpassed hrest ih =>
    cases hw with
    | literal => exact absurd rfl hrest.ne_nil
    | parameter _ hpassed' hrest' =>
      cases hpassed.symm.trans hpassed'
      exact ih hrest'

theorem reached_iff (bound : DepthBound) (n : Nat) :
    bound.reached n = true ↔ ∃ d, bound = some d ∧ d ≤ n := by
  cases bound <;> simp [DepthBound.reached]

/-- The chain of a route leads to its literal. Its methods are new to the path and distinct, and
together with the path they are no more than the bound allows. -/
theorem Route.cons_inv {full : List MethodId} (h : Route p bound full i chain value)
    (hfull : full = m :: path) :
    Leads p m i chain value ∧ (chain.dropLast.map (·.edge.caller)).Nodup ∧
      (∀ x ∈ chain.dropLast.map (·.edge.caller), x ∉ m :: path) ∧
      ∀ d, bound = some d → path.length + chain.length ≤ max (path.length + 1) d := by
  induction h generalizing m path with
  | literal hedge hpassed =>
    cases hfull
    refine ⟨.literal hedge hpassed, by simp, by simp, fun d _ => ?_⟩
    exact Nat.le_max_left ..
  | @parameter m rest i j n edge chain value hedge hpassed hlive _ ih =>
    cases hfull
    obtain ⟨hleads, hnodup, hfresh, hbounded⟩ := ih rfl
    rw [List.dropLast_cons_of_ne_nil hleads.ne_nil, List.map_cons]
    refine ⟨.parameter hedge hpassed hleads, ?_, ?_, ?_⟩
    · exact List.nodup_cons.2 ⟨fun hmem => hfresh _ hmem (List.mem_cons_self ..), hnodup⟩
    · intro x hx
      rcases List.mem_cons.1 hx with rfl | hx
      · exact fun hmem => hlive (.inl hmem)
      · exact fun hmem => hfresh x hx (List.mem_cons_of_mem _ hmem)
    · intro d hd
      have hlong : ¬ d ≤ rest.length + 1 := fun hle =>
        hlive (.inr ((reached_iff ..).2 ⟨d, hd, hle⟩))
      have hchain := hbounded d hd
      simp only [List.length_cons] at hchain ⊢
      omega

/-- A chain whose methods are new to a path and distinct may extend it within the bound. -/
theorem Leads.route (h : Leads p m i chain value)
    (hnodup : (chain.dropLast.map (·.edge.caller)).Nodup)
    (hfresh : ∀ x ∈ chain.dropLast.map (·.edge.caller), x ∉ m :: path)
    (hbounded : ∀ d, bound = some d → path.length + chain.length ≤ max (path.length + 1) d) :
    Route p bound (m :: path) i chain value := by
  induction h generalizing path with
  | literal hedge hpassed => exact .literal hedge hpassed
  | @parameter m i j n edge chain value hedge hpassed hrest ih =>
    have hpos : 0 < chain.length := List.length_pos_iff.2 hrest.ne_nil
    rw [List.dropLast_cons_of_ne_nil hrest.ne_nil, List.map_cons] at hnodup hfresh
    obtain ⟨hnew, hnodup⟩ := List.nodup_cons.1 hnodup
    have hcaller := hfresh edge.caller (List.mem_cons_self ..)
    refine .parameter hedge hpassed ?_ (ih hnodup ?_ ?_)
    · rintro (hmem | hreached)
      · exact hcaller hmem
      · obtain ⟨d, hd, hle⟩ := (reached_iff ..).1 hreached
        have hchain := hbounded d hd
        simp only [List.length_cons] at hchain hle
        omega
    · intro x hx hmem
      rcases List.mem_cons.1 hmem with rfl | hmem
      · exact hnew hx
      · exact hfresh x (List.mem_cons_of_mem _ hx) hmem
    · intro d hd
      have hchain := hbounded d hd
      simp only [List.length_cons] at hchain ⊢
      omega

/-- The routes that begin at an owner are its grounding chains. -/
theorem route_singleton_iff {owner : MethodId} :
    Route p bound [owner] i chain value ↔ GroundingChain p bound owner i chain value := by
  constructor
  · intro h
    obtain ⟨hleads, hnodup, hfresh, hbounded⟩ := h.cons_inv rfl
    refine ⟨hleads, List.nodup_cons.2 ⟨fun hmem => ?_, hnodup⟩, by simpa using hbounded⟩
    exact hfresh owner hmem (List.mem_cons_self ..)
  · rintro ⟨hleads, hdistinct, hbounded⟩
    obtain ⟨hnew, hnodup⟩ := List.nodup_cons.1 hdistinct
    refine hleads.route hnodup (fun x hx hmem => ?_) (by simpa using hbounded)
    cases List.mem_singleton.1 hmem
    exact hnew hx

end

/-! ## The search finds the first route -/

/-- What a search has to answer for the routes that extend `path` by an edge at position `n` or
later: the first of them, or nothing if there is none. -/
def Finds (p : Program) (bound : DepthBound) (path : List MethodId) (i n : Nat) :
    Option State.Hit → Prop
  | none => ∀ link chain value, Route p bound path i (link :: chain) value → link.position < n
  | some hit => ∃ chain, Route p bound path i chain hit.value ∧
      hit.trace = (chain.map (·.edge.caller)).reverse ++ path ∧
      ∀ link other value, Route p bound path i (link :: other) value → n ≤ link.position →
        link :: other = chain ∨ Precedes chain (link :: other)

section
variable {p : Program} {bound : DepthBound} {m : MethodId} {path : List MethodId} {i j n : Nat}
  {edge : CallEdge} {result : Option State.Hit}

/-- What the first edge of a route passes: the literal, with which the route ends, or a parameter
from which it goes on. -/
theorem Route.cons_cases {link : Link} {chain : List Link} {value : String}
    (h : Route p bound (m :: path) i (link :: chain) value)
    (hedge : (p.edgesInto m)[link.position]? = some edge) :
    link.edge = edge ∧
      ((p.callSite? edge.site).bind (·.arguments[i]?) = some (.literal value) ∧ chain = [] ∨
      ∃ j, (p.callSite? edge.site).bind (·.arguments[i]?) = some (.parameter j) ∧
        ¬ (edge.caller ∈ m :: path ∨ bound.reached (m :: path).length) ∧
        Route p bound (edge.caller :: m :: path) j chain value) := by
  cases h with
  | literal hedge' hpassed =>
    cases hedge.symm.trans hedge'
    exact ⟨rfl, .inl ⟨hpassed, rfl⟩⟩
  | parameter hedge' hpassed hlive hrest =>
    cases hedge.symm.trans hedge'
    exact ⟨rfl, .inr ⟨_, hpassed, hlive, hrest⟩⟩

theorem Route.exists_cons {chain : List Link} {value : String}
    (h : Route p bound path i chain value) : ∃ link rest, chain = link :: rest := by
  cases h <;> exact ⟨_, _, rfl⟩

/-- The first edge of a route is one of those into the method. -/
theorem Route.position_lt {link : Link} {chain : List Link} {value : String}
    (h : Route p bound (m :: path) i (link :: chain) value) :
    link.position < (p.edgesInto m).length := by
  cases h with
  | literal hedge | parameter hedge => exact (List.getElem?_eq_some_iff.1 hedge).1

/-- Where no route goes through the edge at position `n`, the search may begin after it. -/
theorem Finds.skip (h : Finds p bound path i (n + 1) result)
    (hnone : ∀ link chain value, Route p bound path i (link :: chain) value →
      link.position ≠ n) : Finds p bound path i n result := by
  cases result with
  | none =>
    intro link chain value hroute
    have hlt := h link chain value hroute
    have hne := hnone link chain value hroute
    omega
  | some hit =>
    obtain ⟨chain, hroute, htrace, hfirst⟩ := h
    refine ⟨chain, hroute, htrace, fun link other value hother hle => ?_⟩
    have hne := hnone link other value hother
    exact hfirst link other value hother (by omega)

/-- Where the edge at position `n` passes no literal and no route goes on from its caller, the
search may begin after it. -/
theorem Finds.after (h : Finds p bound (m :: path) i (n + 1) result)
    (hedge : (p.edgesInto m)[n]? = some edge)
    (hliteral : ∀ value, (p.callSite? edge.site).bind (·.arguments[i]?) ≠ some (.literal value))
    (hcaller : ∀ j, (p.callSite? edge.site).bind (·.arguments[i]?) = some (.parameter j) →
      ¬ (edge.caller ∈ m :: path ∨ bound.reached (m :: path).length) →
      ∀ chain value, ¬ Route p bound (edge.caller :: m :: path) j chain value) :
    Finds p bound (m :: path) i n result := by
  refine h.skip fun link chain value hroute hpos => ?_
  subst hpos
  obtain ⟨-, ⟨hpassed, -⟩ | ⟨j, hpassed, hlive, hrest⟩⟩ := hroute.cons_cases hedge
  · exact hliteral value hpassed
  · exact hcaller j hpassed hlive chain value hrest

/-- A search through all edges that finds nothing leaves no route. -/
theorem Finds.not_route (h : Finds p bound path i 0 none) (chain : List Link) (value : String) :
    ¬ Route p bound path i chain value := by
  intro hroute
  obtain ⟨link, rest, rfl⟩ := hroute.exists_cons
  exact Nat.not_lt_zero _ (h link rest value hroute)

/-- An edge that passes a literal is the first route. -/
theorem Finds.literal {value : String} (hedge : (p.edgesInto m)[n]? = some edge)
    (hpassed : (p.callSite? edge.site).bind (·.arguments[i]?) = some (.literal value)) :
    Finds p bound (m :: path) i n (some ⟨value, edge.caller :: m :: path⟩) := by
  refine ⟨[⟨n, edge⟩], .literal hedge hpassed, rfl, fun link other w hother hle => ?_⟩
  rcases Nat.lt_or_eq_of_le hle with hlt | rfl
  · exact .inr (.rel hlt)
  · obtain ⟨rfl, ⟨-, rfl⟩ | ⟨j, hpassed', -, -⟩⟩ := hother.cons_cases hedge
    · exact .inl rfl
    · cases hpassed.symm.trans hpassed'

/-- The first route through a caller is the first route, if one goes there. -/
theorem Finds.through {hit : State.Hit} (hedge : (p.edgesInto m)[n]? = some edge)
    (hpassed : (p.callSite? edge.site).bind (·.arguments[i]?) = some (.parameter j))
    (hlive : ¬ (edge.caller ∈ m :: path ∨ bound.reached (m :: path).length))
    (h : Finds p bound (edge.caller :: m :: path) j 0 (some hit)) :
    Finds p bound (m :: path) i n (some hit) := by
  obtain ⟨chain, hroute, htrace, hfirst⟩ := h
  refine ⟨⟨n, edge⟩ :: chain, .parameter hedge hpassed hlive hroute, by simp [htrace],
    fun link other w hother hle => ?_⟩
  rcases Nat.lt_or_eq_of_le hle with hlt | rfl
  · exact .inr (.rel hlt)
  · -- both routes go through this edge, so they are compared by what follows
    obtain ⟨rfl, ⟨hliteral, -⟩ | ⟨j', hpassed', -, hrest⟩⟩ := hother.cons_cases hedge
    · cases hpassed.symm.trans hliteral
    · cases hpassed.symm.trans hpassed'
      obtain ⟨next, others, rfl⟩ := hrest.exists_cons
      rcases hfirst next others w hrest (Nat.zero_le _) with heq | hprecedes
      · exact .inl (by rw [heq])
      · exact .inr (.cons hprecedes)

/-- The edges from a position on are the edge there and those after it. -/
theorem edges_of_drop {edges rest : List CallEdge} (h : edge :: rest = edges.drop n) :
    edges[n]? = some edge ∧ rest = edges.drop (n + 1) := by
  rw [← List.head?_drop, ← List.tail_drop, ← h]
  exact ⟨rfl, rfl⟩

/-- The search through the edges from a position on finds the first route among them. -/
theorem searchEdges_finds (p : Program) (bound : DepthBound) (path : List MethodId) (i : Nat)
    (edges : List CallEdge) {m : MethodId} {rest : List MethodId} {n : Nat}
    (hpath : path = m :: rest) (hedges : edges = (p.edgesInto m).drop n) :
    Finds p bound path i n (searchEdges p bound path i edges) := by
  fun_induction searchEdges p bound path i edges generalizing m rest n with
  | case1 path i =>
    subst hpath
    intro link chain value hroute
    have hlt := hroute.position_lt
    have hlength := List.drop_eq_nil_iff.1 hedges.symm
    omega
  | case2 path i edge edges value hpassed =>
    subst hpath
    exact .literal (edges_of_drop hedges).1 hpassed
  | case3 path i edge edges j hpassed hdead ih =>
    subst hpath
    obtain ⟨hedge, hrest⟩ := edges_of_drop hedges
    exact (ih rfl hrest).after hedge (by simp [hpassed]) fun _ _ hlive => absurd hdead hlive
  | case4 path i edge edges j hpassed hlive ihCaller ih =>
    subst hpath
    obtain ⟨hedge, hrest⟩ := edges_of_drop hedges
    have hcaller := ihCaller (n := 0) rfl List.drop_zero.symm
    cases hfound : searchEdges p bound (edge.caller :: m :: rest) j (p.edgesInto edge.caller) with
    | some hit =>
      rw [hfound] at hcaller
      exact hcaller.through hedge hpassed hlive
    | none =>
      rw [hfound] at hcaller
      refine (ih rfl hrest).after hedge (by simp [hpassed]) fun j' hpassed' _ => ?_
      cases hpassed.symm.trans hpassed'
      exact hcaller.not_route
  | case5 path i edge edges hpassed ih | case6 path i edge edges hpassed ih =>
    subst hpath
    obtain ⟨hedge, hrest⟩ := edges_of_drop hedges
    exact (ih rfl hrest).after hedge (by simp [hpassed]) (by simp [hpassed])

end

/-! ## Parameters are resolved by their first chain -/

section
variable {p : Program} {bound : DepthBound} {owner : MethodId} {i : Nat} {chain : List Link}
  {value : String}

/-- A parameter whose search finds nothing has no grounding chain; one whose search finds a literal
has it from its first grounding chain. -/
theorem traceParameter_cases (p : Program) (bound : DepthBound) (owner : MethodId) (i : Nat) :
    (traceParameter p bound owner i = none ∧
      ∀ chain value, ¬ GroundingChain p bound owner i chain value) ∨
    ∃ chain value, FirstChain p bound owner i chain value ∧
      traceParameter p bound owner i =
        some (.traced value (qualifiedNames p (chainTrace owner chain))) := by
  have hfinds := searchEdges_finds p bound [owner] i (p.edgesInto owner) (n := 0) rfl
    List.drop_zero.symm
  rw [traceParameter, State.run_start]
  cases hsearch : searchEdges p bound [owner] i (p.edgesInto owner) with
  | none =>
    rw [hsearch] at hfinds
    exact .inl ⟨rfl, fun chain value hchain =>
      hfinds.not_route chain value (route_singleton_iff.2 hchain)⟩
  | some hit =>
    rw [hsearch] at hfinds
    obtain ⟨chain, hroute, htrace, hfirst⟩ := hfinds
    refine .inr ⟨chain, hit.value, ⟨route_singleton_iff.1 hroute, fun other w hother => ?_⟩, ?_⟩
    · have hroute' := route_singleton_iff.2 hother
      obtain ⟨link, rest, rfl⟩ := hroute'.exists_cons
      exact hfirst link rest w hroute' (Nat.zero_le _)
    · simp [chainTrace, htrace]

/-- A parameter without a grounding chain is unresolved, and any other is traced. -/
theorem resolve_parameter_cases (p : Program) (bound : DepthBound) (owner : MethodId) (i : Nat) :
    (resolve p bound owner (.parameter i) = .unresolved ∧
      ¬ ∃ chain value, GroundingChain p bound owner i chain value) ∨
    ((resolve p bound owner (.parameter i)).provenance = .tracedRecursively ∧
      ∃ chain value, GroundingChain p bound owner i chain value) := by
  rw [resolve]
  rcases traceParameter_cases p bound owner i with ⟨hnone, hno⟩ | ⟨chain, value, hfirst, hsome⟩
  · rw [hnone]
    refine .inl ⟨rfl, ?_⟩
    rintro ⟨chain, value, hchain⟩
    exact hno chain value hchain
  · rw [hsome]
    exact .inr ⟨rfl, chain, value, hfirst.grounds⟩

/-- A literal is always resolved, and a parameter if it has a grounding chain. So a program resolves
what another one resolves, if it grounds the parameters that the other one grounds. -/
theorem isResolved_of_groundingChain {q : Program} {bound' : DepthBound} {arg : Argument}
    (h : ∀ i chain value, GroundingChain p bound owner i chain value →
      ∃ chain' value', GroundingChain q bound' owner i chain' value')
    (hresolved : (resolve p bound owner arg).isResolved = true) :
    (resolve q bound' owner arg).isResolved = true := by
  cases arg with
  | literal => rfl
  | unsupported => cases hresolved
  | parameter i =>
    rcases resolve_parameter_cases p bound owner i with ⟨hp, -⟩ | ⟨-, chain, value, hchain⟩
    · rw [hp] at hresolved
      cases hresolved
    · rcases resolve_parameter_cases q bound' owner i with ⟨-, hno⟩ | ⟨hq, -⟩
      · exact absurd (h i chain value hchain) hno
      · rw [ResolvedValue.isResolved, hq]
        rfl

/-- There is one first chain only. -/
theorem FirstChain.unique (h : FirstChain p bound owner i chain value) {other : List Link}
    {w : String} (hother : FirstChain p bound owner i other w) : chain = other ∧ value = w := by
  rcases h.first other w hother.grounds with rfl | hbefore
  · exact ⟨rfl, h.grounds.leads.value_unique hother.grounds.leads⟩
  rcases hother.first chain value h.grounds with rfl | hafter
  · exact ⟨rfl, h.grounds.leads.value_unique hother.grounds.leads⟩
  exact absurd hafter (List.lex_asymm Nat.lt_asymm hbefore)

end

end CryptoAudit.Resolution
