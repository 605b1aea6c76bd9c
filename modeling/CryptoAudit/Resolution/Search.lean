import CryptoAudit.Program.Basic

/-!
# Searching callers for a literal

To learn what a parameter of a method holds, the search looks at the edges that call the method, in
order. An edge whose argument is a literal ends the search. An edge whose argument is a parameter of
the caller is followed, unless that pair of caller and parameter is known to fail, or the caller is
already on the path, or the path is as long as allowed. All other edges are skipped.

The search is a machine: `State.next` makes one move, and `State.run` moves until a literal is
found or the path is empty. A frame that has no edges left is closed. If nothing below it was cut
off, its pair of method and parameter fails on every path and is remembered; if something was, the
failure depends on the path, and the frame that it was entered from counts as cut too.

`State.run` ends on every program. Methods on the path are distinct (`State.Sound`), and a frame
is entered for an existing method only. Let each frame count for one more than its edges still to
come, in a number system whose base exceeds the edges of any method, at the place given by the
number of methods that are not yet on the path: every move makes this number smaller
(`State.next_decreases`).
-/

namespace CryptoAudit.Resolution

/-- A method on the path, with the parameter that is looked for. -/
structure Frame where
  method : MethodId
  parameter : Nat
  /-- The position of the next edge into the method. -/
  nextEdge : Nat
  /-- An edge below this frame was not followed because of the path. -/
  cut : Bool
deriving DecidableEq, Inhabited

/-- Where the search stands. -/
structure State where
  /-- The frames from the method that is looked at to the one where the search began. -/
  path : List Frame
  onPath : List MethodId
  /-- Pairs of method and parameter behind which there is no literal. -/
  failed : List (MethodId × Nat)
deriving DecidableEq, Inhabited

/-- What a move leads to. -/
inductive Outcome where
  /-- The caller passes a literal. -/
  | found (value : String) (caller : MethodId)
  /-- There is no path left. -/
  | exhausted
  | moved (s : State)
deriving DecidableEq, Inhabited

/-- How many methods a path may hold; none for any number. -/
abbrev DepthBound := Option Nat

/-- A path of this length may not be extended. -/
def DepthBound.reached (bound : DepthBound) (length : Nat) : Bool :=
  match bound with
  | none => false
  | some d => d ≤ length

namespace State

/-- A search for a parameter of a method. -/
def start (owner : MethodId) (parameter : Nat) : State :=
  ⟨[⟨owner, parameter, 0, false⟩], [owner], []⟩

/-- The methods on the path, the one that is looked at first. -/
def methods (s : State) : List MethodId := s.path.map (·.method)

/-- Marks the frame that is looked at as cut. -/
def markCut : List Frame → List Frame
  | [] => []
  | f :: rest => { f with cut := true } :: rest

/-- Closes the frame `top`, which was entered from `rest`. -/
def close (s : State) (top : Frame) (rest : List Frame) : State where
  path := if top.cut then markCut rest else rest
  onPath := s.onPath.filter (· != top.method)
  failed := if top.cut then s.failed else (top.method, top.parameter) :: s.failed

/-- Goes on to the next edge into the method that is looked at. -/
def skip (s : State) (top : Frame) (rest : List Frame) : State :=
  { s with path := { top with nextEdge := top.nextEdge + 1 } :: rest }

/-- Goes on to the next edge, leaving out this one because of the path. -/
def cutOff (s : State) (top : Frame) (rest : List Frame) : State :=
  { s with path := { top with nextEdge := top.nextEdge + 1, cut := true } :: rest }

/-- Follows an edge to a parameter of the caller. -/
def enter (s : State) (top : Frame) (rest : List Frame) (caller : MethodId) (parameter : Nat) :
    State where
  path := ⟨caller, parameter, 0, false⟩ :: { top with nextEdge := top.nextEdge + 1 } :: rest
  onPath := caller :: s.onPath
  failed := s.failed

/-- What an edge passes for a parameter of the method that it calls. -/
def passed (p : Program) (edge : CallEdge) (parameter : Nat) : Option Argument :=
  (p.callSite? edge.site).bind (·.arguments[parameter]?)

/-- One move. -/
def next (p : Program) (bound : DepthBound) (s : State) : Outcome :=
  match s.path with
  | [] => .exhausted
  | top :: rest =>
    match (p.edgesInto top.method)[top.nextEdge]? with
    | none => .moved (s.close top rest)
    | some edge =>
      match passed p edge top.parameter with
      | some (.literal value) => .found value edge.caller
      | some (.parameter i) =>
        if (edge.caller, i) ∈ s.failed then .moved (s.skip top rest)
        else if edge.caller ∈ s.onPath ∨ bound.reached s.path.length then
          .moved (s.cutOff top rest)
        else .moved (s.enter top rest edge.caller i)
      | some .unsupported | none => .moved (s.skip top rest)

/-- The methods on the path are distinct, and `onPath` is their set. -/
structure Sound (s : State) : Prop where
  nodup : s.methods.Nodup
  mem_onPath : ∀ m, m ∈ s.onPath ↔ m ∈ s.methods

/-! ## Every move keeps the path sound -/

@[simp] theorem methods_markCut (path : List Frame) :
    (markCut path).map (·.method) = path.map (·.method) := by
  cases path <;> rfl

section
variable {p : Program} {bound : DepthBound} {s : State} {top : Frame} {rest : List Frame}

theorem sound_start (owner : MethodId) (parameter : Nat) : (start owner parameter).Sound :=
  ⟨by simp [methods, start], by simp [methods, start]⟩

/-- Closing the top frame keeps the record of methods on the path right. -/
theorem Sound.close (h : s.Sound) (hs : s.path = top :: rest) : (s.close top rest).Sound := by
  have hm : s.methods = top.method :: rest.map (·.method) := by simp [methods, hs]
  have hmethods : (s.close top rest).methods = rest.map (·.method) := by
    unfold methods State.close
    dsimp only
    split <;> simp
  have hnodup := h.nodup
  rw [hm, List.nodup_cons] at hnodup
  refine ⟨hmethods ▸ hnodup.2, fun m => ?_⟩
  rw [hmethods]
  simp only [State.close, List.mem_filter, h.mem_onPath, hm, List.mem_cons, bne_iff_ne]
  constructor
  · rintro ⟨rfl | hm, hne⟩
    · exact absurd rfl hne
    · exact hm
  · intro hmem
    exact ⟨.inr hmem, fun heq => hnodup.1 (heq ▸ hmem)⟩

theorem Sound.skip (h : s.Sound) (hs : s.path = top :: rest) : (s.skip top rest).Sound := by
  have hm : (s.skip top rest).methods = s.methods := by simp [methods, State.skip, hs]
  exact ⟨hm ▸ h.nodup, fun m => hm ▸ h.mem_onPath m⟩

theorem Sound.cutOff (h : s.Sound) (hs : s.path = top :: rest) : (s.cutOff top rest).Sound := by
  have hm : (s.cutOff top rest).methods = s.methods := by simp [methods, State.cutOff, hs]
  exact ⟨hm ▸ h.nodup, fun m => hm ▸ h.mem_onPath m⟩

/-- Going on to a caller that is not on the path keeps the record of methods on the path right. -/
theorem Sound.enter (h : s.Sound) (hs : s.path = top :: rest) {caller : MethodId} (i : Nat)
    (hc : caller ∉ s.onPath) : (s.enter top rest caller i).Sound := by
  have hm : (s.enter top rest caller i).methods = caller :: s.methods := by
    simp [methods, State.enter, hs]
  refine ⟨?_, fun m => ?_⟩
  · rw [hm, List.nodup_cons]
    exact ⟨fun hmem => hc ((h.mem_onPath _).2 hmem), h.nodup⟩
  · rw [hm]
    simp [State.enter, h.mem_onPath]

/-- A move keeps the path sound. -/
theorem Sound.next (h : s.Sound) {t : State} (ht : s.next p bound = .moved t) : t.Sound := by
  unfold State.next at ht
  split at ht
  next => cases ht
  next top rest hs =>
    split at ht
    next => cases ht; exact h.close hs
    next edge _ =>
      split at ht
      next => cases ht
      next i _ =>
        split at ht
        next => cases ht; exact h.skip hs
        next =>
          split at ht
          next => cases ht; exact h.cutOff hs
          next hcut =>
            cases ht
            exact h.enter hs i fun hmem => hcut (.inl hmem)
      next => cases ht; exact h.skip hs
      next => cases ht; exact h.skip hs

end

/-! ## Every move makes the measure smaller -/

/-- The number of edges into the method with most of them. -/
def maxEdges (p : Program) : Nat := (p.callGraph.incoming.map List.length).foldr max 0

/-- The number of methods of the program that are not on the path. -/
def free (p : Program) (path : List Frame) : Nat :=
  ((List.range p.methods.length).filter (· ∉ path.map (·.method))).length

/-- The number of edges that a frame has still to look at. -/
def remaining (p : Program) (f : Frame) : Nat := (p.edgesInto f.method).length - f.nextEdge

/-- What a digit counts for at a place of the number system. -/
def placeValue (p : Program) (place : Nat) : Nat := Nat.pow (maxEdges p + 2) place

theorem placeValue_pos (p : Program) (place : Nat) : 0 < placeValue p place :=
  Nat.pow_pos (Nat.succ_pos _)

theorem placeValue_succ (p : Program) (place : Nat) :
    placeValue p (place + 1) = placeValue p place * (maxEdges p + 2) := rfl

theorem placeValue_le (p : Program) {a b : Nat} (h : a ≤ b) : placeValue p a ≤ placeValue p b :=
  Nat.pow_le_pow_right (Nat.succ_pos _) h

/-- The measure of a path. -/
def weight (p : Program) : List Frame → Nat
  | [] => 0
  | f :: rest => (remaining p f + 1) * placeValue p (free p (f :: rest)) + weight p rest

/-- No method has more edges than the largest number of them. -/
theorem length_edgesInto_le (p : Program) (m : MethodId) :
    (p.edgesInto m).length ≤ maxEdges p := by
  have key : ∀ (lists : List (List CallEdge)) (m : Nat),
      (lists[m]?.getD []).length ≤ (lists.map List.length).foldr max 0 := by
    intro lists
    induction lists with
    | nil => intro m; simp
    | cons l ls ih =>
      intro m
      cases m with
      | zero =>
        simp only [List.getElem?_cons_zero, Option.getD_some, List.map_cons, List.foldr_cons]
        omega
      | succ m =>
        have := ih m
        simp only [List.getElem?_cons_succ, List.map_cons, List.foldr_cons]
        omega
  exact key _ _

theorem free_congr (p : Program) {a b : List Frame}
    (h : a.map (·.method) = b.map (·.method)) : free p a = free p b := by
  simp only [free, h]

/-- A method that is put on a path is no longer free. -/
theorem free_cons_lt (p : Program) {path : List Frame} {f : Frame}
    (hexists : f.method < p.methods.length) (hnew : f.method ∉ path.map (·.method)) :
    free p (f :: path) < free p path := by
  have hfilter : (List.range p.methods.length).filter (· ∉ (f :: path).map (·.method)) =
      ((List.range p.methods.length).filter (· ∉ path.map (·.method))).filter
        (· ≠ f.method) := by
    rw [List.filter_filter]
    congr 1
    funext m
    simp only [List.map_cons, List.mem_cons, not_or, Bool.decide_and, ne_eq]
  rw [free, hfilter, free, List.length_filter_lt_length_iff_exists]
  refine ⟨f.method, ?_, by simp⟩
  simp only [List.mem_filter, List.mem_range]
  exact ⟨hexists, by simpa using hnew⟩

/-- Marking a frame as cut does not change the weight of a path. -/
theorem weight_markCut (p : Program) (path : List Frame) :
    weight p (markCut path) = weight p path := by
  cases path with
  | nil => rfl
  | cons f rest =>
    simp only [markCut, weight]
    exact congrArg (· + weight p rest) (by rw [free_congr p (b := f :: rest) rfl]; rfl)

/-- Going on to the next edge takes one place value off the weight of a path. -/
theorem weight_advance_lt (p : Program) (top top' : Frame) (rest : List Frame)
    (hmethod : top'.method = top.method) (hnext : top'.nextEdge = top.nextEdge + 1)
    (hedge : top.nextEdge < (p.edgesInto top.method).length) :
    weight p (top' :: rest) + placeValue p (free p (top :: rest)) = weight p (top :: rest) := by
  have hfree : free p (top' :: rest) = free p (top :: rest) := free_congr p (by simp [hmethod])
  have hrem : remaining p top = remaining p top' + 1 := by
    simp only [remaining, hmethod, hnext]
    omega
  simp only [weight, hfree, hrem, Nat.add_mul]
  omega

/-- A caller that passes an argument is a method of the program. -/
theorem exists_of_passed {p : Program} {edge : CallEdge} {i : Nat} {a : Argument}
    (h : passed p edge i = some a) : edge.caller < p.methods.length := by
  unfold passed at h
  obtain ⟨site, hsite, -⟩ := Option.bind_eq_some_iff.1 h
  unfold Program.callSite? at hsite
  obtain ⟨m, hm, -⟩ := Option.bind_eq_some_iff.1 hsite
  exact (List.getElem?_eq_some_iff.1 hm).1

/-- Entering a new method costs less than the edge that leads to it. -/
theorem weight_enter_lt (p : Program) (f : Frame) (path : List Frame)
    (hexists : f.method < p.methods.length) (hnew : f.method ∉ path.map (·.method)) :
    weight p (f :: path) < placeValue p (free p path) + weight p path := by
  have hfree := free_cons_lt p hexists hnew
  have hrem : remaining p f + 1 < maxEdges p + 2 := by
    have := length_edgesInto_le p f.method
    simp only [remaining]
    omega
  have hstep : (remaining p f + 1) * placeValue p (free p (f :: path)) <
      placeValue p (free p (f :: path) + 1) := by
    rw [placeValue_succ, Nat.mul_comm]
    exact Nat.mul_lt_mul_of_pos_left hrem (placeValue_pos p _)
  have hle : placeValue p (free p (f :: path) + 1) ≤ placeValue p (free p path) :=
    placeValue_le p hfree
  simp only [weight]
  omega

/-- A move makes the measure smaller. -/
theorem next_decreases {p : Program} {bound : DepthBound} {s t : State} (h : s.Sound)
    (ht : s.next p bound = .moved t) : weight p t.path < weight p s.path := by
  unfold State.next at ht
  split at ht
  next => cases ht
  next top rest hs =>
    rw [hs]
    split at ht
    next hnone =>
      cases ht
      have hpath : weight p (s.close top rest).path = weight p rest := by
        simp only [State.close]
        split
        · exact weight_markCut p rest
        · rfl
      rw [hpath, weight]
      have := Nat.mul_pos (Nat.succ_pos (remaining p top)) (placeValue_pos p (free p (top :: rest)))
      simp only [Nat.succ_eq_add_one] at this
      omega
    next edge hedge =>
      have hlt : top.nextEdge < (p.edgesInto top.method).length :=
        (List.getElem?_eq_some_iff.1 hedge).1
      have hpow := placeValue_pos p (free p (top :: rest))
      have hskip : weight p (s.skip top rest).path < weight p (top :: rest) := by
        have := weight_advance_lt p top { top with nextEdge := top.nextEdge + 1 } rest rfl rfl hlt
        simp only [State.skip]
        omega
      split at ht
      next => cases ht
      next i hpassed =>
        split at ht
        next => cases ht; exact hskip
        next =>
          split at ht
          next =>
            cases ht
            have := weight_advance_lt p top { top with nextEdge := top.nextEdge + 1, cut := true }
              rest rfl rfl hlt
            simp only [State.cutOff]
            omega
          next hcut =>
            cases ht
            have hnew : edge.caller ∉ s.methods := fun hmem =>
              hcut (.inl ((h.mem_onPath _).2 hmem))
            have henter := weight_enter_lt p ⟨edge.caller, i, 0, false⟩
              ({ top with nextEdge := top.nextEdge + 1 } :: rest)
              (exists_of_passed hpassed) (by simpa [methods, hs] using hnew)
            have hadv := weight_advance_lt p top { top with nextEdge := top.nextEdge + 1 } rest
              rfl rfl hlt
            have hfree : free p ({ top with nextEdge := top.nextEdge + 1 } :: rest) =
                free p (top :: rest) := free_congr p (by simp)
            rw [hfree] at henter
            simp only [State.enter]
            omega
      next => cases ht; exact hskip
      next => cases ht; exact hskip

/-! ## The search -/

/-- A literal that was found, with the methods that it passed through: the one that holds it, then
those on the path. -/
structure Hit where
  value : String
  trace : List MethodId
deriving DecidableEq, Inhabited

/-- Moves until a literal is found or the path is empty. -/
def run (p : Program) (bound : DepthBound) (s : State) (h : s.Sound) : Option Hit :=
  match ht : s.next p bound with
  | .found value caller => some ⟨value, caller :: s.methods⟩
  | .exhausted => none
  | .moved t => t.run p bound (h.next ht)
termination_by weight p s.path
decreasing_by exact next_decreases h ht

/-- The states that the search goes through, from `s` to the last one. -/
def history (p : Program) (bound : DepthBound) (s : State) (h : s.Sound) : List State :=
  match ht : s.next p bound with
  | .found _ _ | .exhausted => [s]
  | .moved t => s :: t.history p bound (h.next ht)
termination_by weight p s.path
decreasing_by exact next_decreases h ht

end State

end CryptoAudit.Resolution
