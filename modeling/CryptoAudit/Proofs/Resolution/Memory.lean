import CryptoAudit.Resolution.Search

/-!
# What the search remembers

A move of the search is one of five (`State.Moves`). The invariants of the search are proved for
each of them, and hold in every state that it goes through.

The record of failures is closed (`State.Closed`): every edge into a recorded method passes nothing
of use, or a parameter of its caller whose pair is recorded too. A frame is recorded when it is
closed without being cut, so the record stays closed because of what holds of the frames still on
the path (`State.Remembers`): as long as a frame is not cut, the edges that it has left behind are
dead, where the pair of the frame above it counts as recorded. The frame above is the only search
that is not finished yet: when it ends, it is either recorded or it cuts the frame below.
-/

namespace CryptoAudit.Resolution.State

/-! ## Moves -/

/-- The search may move from `s` to the given state. -/
inductive Moves (p : Program) (bound : DepthBound) (s : State) : State → Prop
  | close {top : Frame} {rest : List Frame} (hs : s.path = top :: rest)
      (hend : (p.edgesInto top.method)[top.nextEdge]? = none) : Moves p bound s (s.close top rest)
  | skip {top : Frame} {rest : List Frame} {edge : CallEdge} (hs : s.path = top :: rest)
      (hedge : (p.edgesInto top.method)[top.nextEdge]? = some edge)
      (hpassed : ∀ a, passed p edge top.parameter = some a → a = .unsupported) :
      Moves p bound s (s.skip top rest)
  | skipFailed {top : Frame} {rest : List Frame} {edge : CallEdge} {i : Nat}
      (hs : s.path = top :: rest) (hedge : (p.edgesInto top.method)[top.nextEdge]? = some edge)
      (hpassed : passed p edge top.parameter = some (.parameter i))
      (hfailed : (edge.caller, i) ∈ s.failed) : Moves p bound s (s.skip top rest)
  | cutOff {top : Frame} {rest : List Frame} {edge : CallEdge} {i : Nat}
      (hs : s.path = top :: rest) (hedge : (p.edgesInto top.method)[top.nextEdge]? = some edge)
      (hpassed : passed p edge top.parameter = some (.parameter i))
      (hfailed : (edge.caller, i) ∉ s.failed)
      (hdead : edge.caller ∈ s.onPath ∨ bound.reached s.path.length) :
      Moves p bound s (s.cutOff top rest)
  | enter {top : Frame} {rest : List Frame} {edge : CallEdge} {i : Nat}
      (hs : s.path = top :: rest) (hedge : (p.edgesInto top.method)[top.nextEdge]? = some edge)
      (hpassed : passed p edge top.parameter = some (.parameter i))
      (hfailed : (edge.caller, i) ∉ s.failed)
      (hlive : ¬ (edge.caller ∈ s.onPath ∨ bound.reached s.path.length)) :
      Moves p bound s (s.enter top rest edge.caller i)

section
variable {p : Program} {bound : DepthBound} {s t : State}

/-- What a move of the machine can be, with the reason for it. -/
theorem moves_of_next (ht : s.next p bound = .moved t) : Moves p bound s t := by
  unfold next at ht
  split at ht
  next => cases ht
  next top rest hs =>
    split at ht
    next hend => cases ht; exact .close hs hend
    next edge hedge =>
      split at ht
      next => cases ht
      next i hpassed =>
        split at ht
        next hfailed => cases ht; exact .skipFailed hs hedge hpassed hfailed
        next hfailed =>
          split at ht
          next hdead => cases ht; exact .cutOff hs hedge hpassed hfailed hdead
          next hlive => cases ht; exact .enter hs hedge hpassed hfailed hlive
      next hpassed => cases ht; exact .skip hs hedge fun a ha => by simp_all
      next hpassed => cases ht; exact .skip hs hedge fun a ha => by simp_all

/-- The search ends with a literal only if the edge that it looks at passes it. -/
theorem next_eq_found {value : String} {caller : MethodId}
    (h : s.next p bound = .found value caller) :
    ∃ top rest edge, s.path = top :: rest ∧
      (p.edgesInto top.method)[top.nextEdge]? = some edge ∧ edge.caller = caller ∧
      passed p edge top.parameter = some (.literal value) := by
  unfold next at h
  split at h
  next => cases h
  next top rest hs =>
    split at h
    next => cases h
    next edge hedge =>
      split at h
      next hpassed => cases h; exact ⟨top, rest, edge, hs, hedge, rfl, hpassed⟩
      next =>
        split at h
        next => cases h
        next => split at h <;> cases h
      next => cases h
      next => cases h

/-- The search ends without a literal only if the path is empty. -/
theorem next_eq_exhausted (h : s.next p bound = .exhausted) : s.path = [] := by
  unfold next at h
  split at h
  next hs => exact hs
  next =>
    split at h
    next => cases h
    next =>
      split at h
      next => cases h
      next =>
        split at h
        next => cases h
        next => split at h <;> cases h
      next => cases h
      next => cases h

/-- A move keeps the methods on the path, takes the first of them off, or puts a caller of it on. -/
theorem Moves.methods_cases (ht : Moves p bound s t) :
    t.methods = s.methods ∨ t.methods = s.methods.tail ∨
    ∃ top rest edge i, s.path = top :: rest ∧ edge ∈ p.edgesInto top.method ∧
      passed p edge top.parameter = some (.parameter i) ∧
      ¬ (edge.caller ∈ s.onPath ∨ bound.reached s.path.length) ∧
      t.methods = edge.caller :: s.methods := by
  cases ht with
  | @close top rest hs =>
    have hrest : (s.close top rest).methods = rest.map (·.method) := by
      simp only [methods, State.close]
      split
      · exact methods_markCut rest
      · rfl
    refine .inr (.inl ?_)
    rw [hrest, methods, hs]
    rfl
  | skip hs | skipFailed hs | cutOff hs =>
    exact .inl (by simp [methods, State.skip, State.cutOff, hs])
  | @enter top rest edge i hs hedge hpassed _ hlive =>
    refine .inr (.inr ⟨top, rest, edge, i, hs, List.mem_of_getElem? hedge, hpassed, hlive, ?_⟩)
    simp [methods, State.enter, hs]

/-- A run ends where the next edge passes a literal. -/
theorem run_of_found {value : String} {caller : MethodId} (hsound : s.Sound)
    (h : s.next p bound = .found value caller) :
    s.run p bound hsound = some ⟨value, caller :: s.methods⟩ := by
  rw [run]
  split <;> simp_all

theorem run_of_exhausted (hsound : s.Sound) (h : s.next p bound = .exhausted) :
    s.run p bound hsound = none := by
  rw [run]
  split <;> simp_all

/-- A run goes on from the state that a move leads to. -/
theorem run_of_moved (hsound : s.Sound) (h : s.next p bound = .moved t) :
    s.run p bound hsound = t.run p bound (hsound.next h) := by
  rw [run]
  split
  next heq => cases h.symm.trans heq
  next heq => cases h.symm.trans heq
  next heq =>
    cases h.symm.trans heq
    rfl

end

/-! ## Closed records of failures -/

/-- An edge that passes nothing of use, or a parameter of its caller whose pair is in `failed`. -/
def Dead (p : Program) (failed : List (MethodId × Nat)) (edge : CallEdge) (parameter : Nat) :
    Prop :=
  ∀ a, passed p edge parameter = some a →
    a = .unsupported ∨ ∃ i, a = .parameter i ∧ (edge.caller, i) ∈ failed

/-- All edges into the methods of `failed` are dead. -/
def Closed (p : Program) (failed : List (MethodId × Nat)) : Prop :=
  ∀ m i, (m, i) ∈ failed → ∀ edge ∈ p.edgesInto m, Dead p failed edge i

/-- If the frame is not cut, the edges that it has left behind are dead. -/
def Explored (p : Program) (failed : List (MethodId × Nat)) (f : Frame) : Prop :=
  f.cut = false → ∀ edge ∈ (p.edgesInto f.method).take f.nextEdge, Dead p failed edge f.parameter

/-- All frames of a path are explored, where `pending` counts as recorded for the first of them
and the pair of each frame for the one below it. -/
def PathExplored (p : Program) (failed : List (MethodId × Nat)) :
    List (MethodId × Nat) → List Frame → Prop
  | _, [] => True
  | pending, f :: rest =>
    Explored p (pending ++ failed) f ∧ PathExplored p failed [(f.method, f.parameter)] rest

/-- The record is closed, and the frames on the path are explored. -/
structure Remembers (p : Program) (s : State) : Prop where
  closed : Closed p s.failed
  explored : PathExplored p s.failed [] s.path

section
variable {p : Program} {failed failed' : List (MethodId × Nat)} {edge : CallEdge} {parameter : Nat}
  {f : Frame}

/-- An edge stays dead while the record grows. -/
theorem Dead.mono (hsub : failed ⊆ failed') (h : Dead p failed edge parameter) :
    Dead p failed' edge parameter := by
  intro a ha
  rcases h a ha with rfl | ⟨i, rfl, hmem⟩
  · exact .inl rfl
  · exact .inr ⟨i, rfl, hsub hmem⟩

theorem Dead.of_unsupported (h : ∀ a, passed p edge parameter = some a → a = .unsupported) :
    Dead p failed edge parameter :=
  fun a ha => .inl (h a ha)

/-- An edge is dead if it passes a parameter whose pair is recorded. -/
theorem Dead.of_mem {i : Nat} (h : passed p edge parameter = some (.parameter i))
    (hmem : (edge.caller, i) ∈ failed) : Dead p failed edge parameter := by
  intro a ha
  rw [h] at ha
  cases ha
  exact .inr ⟨i, rfl, hmem⟩

/-- A pair whose edges are all dead may be recorded. -/
theorem Closed.cons (h : Closed p failed) {m : MethodId} {i : Nat}
    (hdead : ∀ edge ∈ p.edgesInto m, Dead p failed edge i) : Closed p ((m, i) :: failed) := by
  intro m' i' hmem edge hedge
  have hsub : failed ⊆ (m, i) :: failed := List.subset_cons_self ..
  rcases List.mem_cons.1 hmem with heq | hmem
  · cases heq
    exact (hdead edge hedge).mono hsub
  · exact (h m' i' hmem edge hedge).mono hsub

theorem Explored.mono (hsub : failed ⊆ failed') (h : Explored p failed f) :
    Explored p failed' f :=
  fun hcut edge hedge => (h hcut edge hedge).mono hsub

/-- A frame that has looked at all its edges has found them dead, if it is not cut. -/
theorem Explored.of_end (h : Explored p failed f) (hcut : f.cut = false)
    (hend : (p.edgesInto f.method)[f.nextEdge]? = none) :
    ∀ edge ∈ p.edgesInto f.method, Dead p failed edge f.parameter := by
  rw [List.getElem?_eq_none_iff] at hend
  have hall := h hcut
  rwa [List.take_of_length_le hend] at hall

/-- A frame may go on to its next edge if this one is dead. -/
theorem Explored.advance (h : Explored p failed f)
    (hedge : (p.edgesInto f.method)[f.nextEdge]? = some edge)
    (hdead : Dead p failed edge f.parameter) :
    Explored p failed { f with nextEdge := f.nextEdge + 1 } := by
  intro hcut e he
  dsimp only at he hcut ⊢
  rw [List.take_add_one, hedge, List.mem_append] at he
  rcases he with he | he
  · exact h hcut e he
  · cases List.mem_singleton.1 he
    exact hdead

/-- What has been explored stays so while the record and what is pending grow. -/
theorem PathExplored.mono {pending pending' : List (MethodId × Nat)} (hsub : failed ⊆ failed')
    (hpending : pending ++ failed ⊆ pending' ++ failed') :
    ∀ {path : List Frame}, PathExplored p failed pending path → PathExplored p failed' pending' path
  | [], _ => trivial
  | _ :: _, ⟨hf, hrest⟩ => ⟨hf.mono hpending, hrest.mono hsub (List.append_subset.2
      ⟨List.subset_append_left .., fun _ h => List.mem_append_right _ (hsub h)⟩)⟩

/-- A cut frame needs no pending pair. -/
theorem PathExplored.markCut {pending : List (MethodId × Nat)} :
    ∀ {path : List Frame}, PathExplored p failed pending path →
      PathExplored p failed [] (markCut path)
  | [], _ => trivial
  | _ :: _, ⟨_, hrest⟩ => ⟨nofun, hrest⟩

end

/-! ## Every move keeps the record closed -/

theorem remembers_start (p : Program) (owner : MethodId) (parameter : Nat) :
    Remembers p (start owner parameter) :=
  ⟨nofun, ⟨by simp [Explored], trivial⟩⟩

section
variable {p : Program} {bound : DepthBound} {s t : State} {top : Frame} {rest : List Frame}
  {edge : CallEdge} {i : Nat}

/-- The frames of a path have been explored, each up to its next edge. -/
theorem Remembers.path (h : Remembers p s) (hs : s.path = top :: rest) :
    Explored p s.failed top ∧ PathExplored p s.failed [(top.method, top.parameter)] rest := by
  have hpath := h.explored
  rw [hs] at hpath
  exact hpath

/-- Closing a frame records its pair only when all its edges are dead. -/
theorem Remembers.close (h : Remembers p s) (hs : s.path = top :: rest)
    (hend : (p.edgesInto top.method)[top.nextEdge]? = none) : Remembers p (s.close top rest) := by
  obtain ⟨htop, hrest⟩ := h.path hs
  cases hcut : top.cut with
  | true =>
    refine ⟨?_, ?_⟩
    · simpa [State.close, hcut] using h.closed
    · simpa [State.close, hcut] using hrest.markCut
  | false =>
    refine ⟨?_, ?_⟩
    · simpa [State.close, hcut] using h.closed.cons (htop.of_end hcut hend)
    · -- the pair that was pending for the frame below is now recorded
      have hrecorded : PathExplored p ((top.method, top.parameter) :: s.failed) [] rest :=
        hrest.mono (List.subset_cons_self ..) (List.Subset.refl _)
      simpa [State.close, hcut] using hrecorded

/-- Going on to the next edge keeps what is remembered if this one is dead. -/
theorem Remembers.skip (h : Remembers p s) (hs : s.path = top :: rest)
    (hedge : (p.edgesInto top.method)[top.nextEdge]? = some edge)
    (hdead : Dead p s.failed edge top.parameter) : Remembers p (s.skip top rest) := by
  obtain ⟨htop, hrest⟩ := h.path hs
  exact ⟨h.closed, htop.advance hedge hdead, hrest⟩

theorem Remembers.cutOff (h : Remembers p s) (hs : s.path = top :: rest) :
    Remembers p (s.cutOff top rest) :=
  ⟨h.closed, nofun, (h.path hs).2⟩

/-- Going on to a caller leaves what was explored, and begins with nothing explored there. -/
theorem Remembers.enter (h : Remembers p s) (hs : s.path = top :: rest)
    (hedge : (p.edgesInto top.method)[top.nextEdge]? = some edge)
    (hpassed : passed p edge top.parameter = some (.parameter i)) :
    Remembers p (s.enter top rest edge.caller i) := by
  obtain ⟨htop, hrest⟩ := h.path hs
  have hdead : Dead p ((edge.caller, i) :: s.failed) edge top.parameter :=
    .of_mem hpassed (List.mem_cons_self ..)
  exact ⟨h.closed, by simp [Explored],
    (htop.mono (List.subset_cons_self ..)).advance hedge hdead, hrest⟩

/-- A move keeps what is remembered. -/
theorem Remembers.moves (h : Remembers p s) (ht : Moves p bound s t) : Remembers p t := by
  cases ht with
  | close hs hend => exact h.close hs hend
  | skip hs hedge hpassed => exact h.skip hs hedge (.of_unsupported hpassed)
  | skipFailed hs hedge hpassed hfailed => exact h.skip hs hedge (.of_mem hpassed hfailed)
  | cutOff hs => exact h.cutOff hs
  | enter hs hedge hpassed => exact h.enter hs hedge hpassed

end

end CryptoAudit.Resolution.State
