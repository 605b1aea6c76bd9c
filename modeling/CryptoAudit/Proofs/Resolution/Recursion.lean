import CryptoAudit.Proofs.Resolution.Memory
import CryptoAudit.Resolution.Basic

/-!
# The search as a recursion

`searchEdges` is the search for a literal as one would first write it: a recursion over the edges
into a method that keeps no record of what has failed. The machine `State.run` gives the same answer
(`traceParameter_eq_searchParameter`), although it works in another way on two points.

The machine keeps its own stack. What it would still find from a state is `State.resume`: the
recursion on the edges that the top frame has left, and after it the frames below. Every move keeps
this value (`State.resume_moves`).

The machine skips the pairs of method and parameter that it has recorded as failed. The record is
closed (`State.Closed`), and a closed record has no literal behind it on any path
(`searchEdges_eq_none`), so the recursion finds nothing there either.
-/

namespace CryptoAudit.Resolution

/-- The number of methods of the program that are not on a path. -/
def unvisited (p : Program) (path : List MethodId) : Nat :=
  ((List.range p.methods.length).filter (· ∉ path)).length

/-- A method that is put on a path is no longer unvisited. -/
theorem unvisited_cons_lt (p : Program) {path : List MethodId} {m : MethodId}
    (hexists : m < p.methods.length) (hnew : m ∉ path) :
    unvisited p (m :: path) < unvisited p path := by
  have hlt := @State.free_cons_lt p (path.map (⟨·, 0, 0, false⟩)) ⟨m, 0, 0, false⟩ hexists
    (by simpa using hnew)
  simpa [State.free, unvisited, Function.comp_def] using hlt

/-- The search through a list of edges that call the first method of `path`. A caller that is on
the path already, or that would make the path too long, is not followed. -/
def searchEdges (p : Program) (bound : DepthBound) (path : List MethodId) (parameter : Nat) :
    List CallEdge → Option State.Hit
  | [] => none
  | edge :: edges =>
    match _hpassed : (p.callSite? edge.site).bind (·.arguments[parameter]?) with
    | some (.literal value) => some ⟨value, edge.caller :: path⟩
    | some (.parameter i) =>
      if _hdead : edge.caller ∈ path ∨ bound.reached path.length then
        searchEdges p bound path parameter edges
      else
        (searchEdges p bound (edge.caller :: path) i (p.edgesInto edge.caller)).or
          (searchEdges p bound path parameter edges)
    | some .unsupported | none => searchEdges p bound path parameter edges
termination_by edges => (unvisited p path, edges.length)
decreasing_by
  · exact .right _ (Nat.lt_succ_self _)
  · exact .left _ _ (unvisited_cons_lt p (State.exists_of_passed _hpassed) fun hmem =>
      _hdead (.inl hmem))
  · exact .right _ (Nat.lt_succ_self _)
  · exact .right _ (Nat.lt_succ_self _)
  · exact .right _ (Nat.lt_succ_self _)

/-- What the callers of a method pass for one of its parameters, by recursion. -/
def searchParameter (p : Program) (bound : DepthBound) (owner : MethodId) (parameter : Nat) :
    Option ResolvedValue :=
  (searchEdges p bound [owner] parameter (p.edgesInto owner)).map fun hit =>
    .traced hit.value (qualifiedNames p hit.trace)

section
variable {p : Program} {bound : DepthBound} {path : List MethodId} {parameter i : Nat}
  {edge : CallEdge} {edges : List CallEdge}

@[simp] theorem searchEdges_nil : searchEdges p bound path parameter [] = none := by
  rw [searchEdges]

/-- An edge that passes a literal ends the search. -/
theorem searchEdges_literal {value : String}
    (h : (p.callSite? edge.site).bind (·.arguments[parameter]?) = some (.literal value)) :
    searchEdges p bound path parameter (edge :: edges) = some ⟨value, edge.caller :: path⟩ := by
  rw [searchEdges]
  split <;> simp_all

/-- An edge that passes a parameter is skipped if its caller is on the path or beyond the bound. -/
theorem searchEdges_parameter_dead
    (h : (p.callSite? edge.site).bind (·.arguments[parameter]?) = some (.parameter i))
    (hdead : edge.caller ∈ path ∨ bound.reached path.length) :
    searchEdges p bound path parameter (edge :: edges) =
      searchEdges p bound path parameter edges := by
  rw [searchEdges]
  split <;> simp_all

/-- An edge that passes a parameter is followed to its caller, and the edges after it are searched
if nothing is found there. -/
theorem searchEdges_parameter
    (h : (p.callSite? edge.site).bind (·.arguments[parameter]?) = some (.parameter i))
    (hlive : ¬ (edge.caller ∈ path ∨ bound.reached path.length)) :
    searchEdges p bound path parameter (edge :: edges) =
      (searchEdges p bound (edge.caller :: path) i (p.edgesInto edge.caller)).or
        (searchEdges p bound path parameter edges) := by
  rw [searchEdges]
  split <;> simp_all

/-- An edge that passes nothing, or nothing supported, is skipped. -/
theorem searchEdges_skip
    (h : ∀ a, (p.callSite? edge.site).bind (·.arguments[parameter]?) = some a → a = .unsupported) :
    searchEdges p bound path parameter (edge :: edges) =
      searchEdges p bound path parameter edges := by
  rw [searchEdges]
  split <;> simp_all

end

/-- There is no literal behind dead edges, whatever the path. -/
theorem searchEdges_eq_none {p : Program} {failed : List (MethodId × Nat)}
    (hclosed : State.Closed p failed) (bound : DepthBound) (path : List MethodId) (parameter : Nat)
    (edges : List CallEdge) (hdead : ∀ edge ∈ edges, State.Dead p failed edge parameter) :
    searchEdges p bound path parameter edges = none := by
  fun_induction searchEdges p bound path parameter edges with
  | case1 => rfl
  | case2 path parameter edge edges value hpassed =>
    rcases hdead edge (List.mem_cons_self ..) _ hpassed with h | ⟨i, h, -⟩ <;> cases h
  | case3 path parameter edge edges i _ _ ih =>
    exact ih fun e he => hdead e (List.mem_cons_of_mem _ he)
  | case4 path parameter edge edges i hpassed _ ihCaller ih =>
    have hmem : (edge.caller, i) ∈ failed := by
      rcases hdead edge (List.mem_cons_self ..) _ hpassed with h | ⟨j, h, hmem⟩ <;> cases h
      exact hmem
    rw [ihCaller (hclosed _ _ hmem), ih fun e he => hdead e (List.mem_cons_of_mem _ he)]
    rfl
  | case5 path parameter edge edges _ ih | case6 path parameter edge edges _ ih =>
    exact ih fun e he => hdead e (List.mem_cons_of_mem _ he)

/-! ## The machine computes the recursion -/

namespace State

/-- What the search finds from a path of frames, by recursion. -/
def resume (p : Program) (bound : DepthBound) : List Frame → Option Hit
  | [] => none
  | f :: rest =>
    (searchEdges p bound (f.method :: rest.map (·.method)) f.parameter
      ((p.edgesInto f.method).drop f.nextEdge)).or (resume p bound rest)

section
variable {p : Program} {bound : DepthBound} {s t : State} {top : Frame} {rest : List Frame}
  {edge : CallEdge} {i : Nat}

theorem resume_markCut (path : List Frame) :
    resume p bound (markCut path) = resume p bound path := by
  cases path <;> rfl

/-- A frame whose next edge gives nothing may go on to the one after it. -/
theorem resume_advance {cut : Bool} (hedge : (p.edgesInto top.method)[top.nextEdge]? = some edge)
    (hskip : ∀ edges, searchEdges p bound (top.method :: rest.map (·.method)) top.parameter
      (edge :: edges) =
        searchEdges p bound (top.method :: rest.map (·.method)) top.parameter edges) :
    resume p bound ({ top with nextEdge := top.nextEdge + 1, cut } :: rest) =
      resume p bound (top :: rest) := by
  obtain ⟨hlt, rfl⟩ := List.getElem?_eq_some_iff.1 hedge
  simp only [resume]
  rw [List.drop_eq_getElem_cons hlt, hskip]

/-- Closing a frame that has no edge left changes nothing about what is found. -/
theorem resume_close (hend : (p.edgesInto top.method)[top.nextEdge]? = none) :
    resume p bound (s.close top rest).path = resume p bound (top :: rest) := by
  rw [List.getElem?_eq_none_iff] at hend
  have hrest : resume p bound (top :: rest) = resume p bound rest := by
    rw [resume, List.drop_of_length_le hend, searchEdges_nil, Option.none_or]
  simp only [State.close, hrest]
  split
  · exact resume_markCut rest
  · rfl

/-- Going on to a caller changes nothing about what is found. -/
theorem resume_enter (hedge : (p.edgesInto top.method)[top.nextEdge]? = some edge)
    (hpassed : passed p edge top.parameter = some (.parameter i))
    (hlive : ¬ (edge.caller ∈ top.method :: rest.map (·.method) ∨
      bound.reached (top.method :: rest.map (·.method)).length)) :
    resume p bound (s.enter top rest edge.caller i).path = resume p bound (top :: rest) := by
  obtain ⟨hlt, rfl⟩ := List.getElem?_eq_some_iff.1 hedge
  simp only [State.enter, resume, List.map_cons, List.drop_zero]
  rw [List.drop_eq_getElem_cons hlt, searchEdges_parameter hpassed hlive, Option.or_assoc]

/-- A caller is a dead end for the machine where it is one for the recursion. -/
theorem dead_end_iff (h : s.Sound) (hs : s.path = top :: rest) (caller : MethodId) :
    (caller ∈ s.onPath ∨ bound.reached s.path.length) ↔
      (caller ∈ top.method :: rest.map (·.method) ∨
        bound.reached (top.method :: rest.map (·.method)).length) := by
  rw [h.mem_onPath, methods, hs]
  simp

/-- A move does not change what the search will find. -/
theorem resume_moves (h : s.Sound) (hmem : Remembers p s) (ht : Moves p bound s t) :
    resume p bound t.path = resume p bound s.path := by
  cases ht with
  | close hs hend => rw [hs, resume_close hend]
  | skip hs hedge hpassed =>
    rw [hs]
    exact resume_advance hedge fun _ => searchEdges_skip hpassed
  | @skipFailed top rest edge i hs hedge hpassed hfailed =>
    rw [hs]
    refine resume_advance hedge fun edges => ?_
    by_cases hdead : edge.caller ∈ top.method :: rest.map (·.method) ∨
        bound.reached (top.method :: rest.map (·.method)).length
    · exact searchEdges_parameter_dead hpassed hdead
    · -- the recursion does follow this edge, but the record says that it finds nothing
      rw [searchEdges_parameter hpassed hdead, searchEdges_eq_none hmem.closed _ _ _ _
        (hmem.closed _ _ hfailed), Option.none_or]
  | cutOff hs hedge hpassed _ hdead =>
    rw [hs]
    exact resume_advance hedge fun _ =>
      searchEdges_parameter_dead hpassed ((dead_end_iff h hs _).1 hdead)
  | enter hs hedge hpassed _ hlive =>
    rw [hs]
    exact resume_enter hedge hpassed fun hdead => hlive ((dead_end_iff h hs _).2 hdead)

/-- The machine finds what the recursion finds from its path. -/
theorem run_eq_resume (h : s.Sound) (hmem : Remembers p s) :
    s.run p bound h = resume p bound s.path := by
  fun_induction run p bound s h with
  | case1 s h value caller hnext =>
    obtain ⟨top, rest, edge, hs, hedge, rfl, hpassed⟩ := next_eq_found hnext
    obtain ⟨hlt, rfl⟩ := List.getElem?_eq_some_iff.1 hedge
    rw [methods, hs, resume, List.drop_eq_getElem_cons hlt, searchEdges_literal hpassed]
    rfl
  | case2 s h hnext =>
    rw [next_eq_exhausted hnext]
    rfl
  | case3 s h t hnext ih =>
    have hmoves := moves_of_next hnext
    rw [ih (hmem.moves hmoves), resume_moves h hmem hmoves]

/-- From the start the machine finds what the recursion finds from the edges into the owner. -/
theorem run_start (p : Program) (bound : DepthBound) (owner : MethodId) (parameter : Nat) :
    (start owner parameter).run p bound (sound_start owner parameter) =
      searchEdges p bound [owner] parameter (p.edgesInto owner) := by
  rw [run_eq_resume _ (remembers_start p ..)]
  simp [start, resume]

end

end State

/-- The search with its stack and its record of failures finds exactly what the recursion without
them finds: the same value by the same trace, or nothing. -/
theorem traceParameter_eq_searchParameter (p : Program) (bound : DepthBound) (owner : MethodId)
    (parameter : Nat) :
    traceParameter p bound owner parameter = searchParameter p bound owner parameter := by
  rw [traceParameter, searchParameter, State.run_start]

end CryptoAudit.Resolution
