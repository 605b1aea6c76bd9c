import Mathlib
import CryptoAudit.Proofs.Resolution.Chain
import CryptoAudit.Proofs.Resolution.Termination

/-!
# Failures are final

A pair of method and parameter that the search has recorded as failed has no literal behind it on
any walk through the callers, however long and however often it comes back to a method
(`failed_grounds_nothing`). So it need not be searched again, and it is not
(`notMem_pushes`): a frame is put on the path only for a pair that is not recorded, and the
record only grows.

A frame that was cut is not recorded and may be searched again on another path. If the calls that
pass parameters on form no cycle and there is no depth bound, then nothing is ever cut
(`Open.moves`). Each pair that was put on the path is then still there or is recorded, so it is not
put there again (`nodup_pushes`). Every iteration looks at one edge of a frame or closes it, so a
frame costs one iteration more than its method has edges (`iterations_le`).
-/

namespace CryptoAudit.Resolution

/-! ## Walks from a recorded pair -/

/-- A closed record has no literal behind it. -/
theorem Leads.notMem_closed {p : Program} {failed : List (MethodId × Nat)} {m : MethodId} {i : Nat}
    {walk : List Link} {value : String} (h : Leads p m i walk value)
    (hclosed : State.Closed p failed) : (m, i) ∉ failed := by
  induction h with
  | literal hedge hpassed =>
    intro hmem
    rcases hclosed _ _ hmem _ (List.mem_of_getElem? hedge) _ hpassed with heq | ⟨j, heq, -⟩ <;>
      cases heq
  | parameter hedge hpassed _ ih =>
    intro hmem
    rcases hclosed _ _ hmem _ (List.mem_of_getElem? hedge) _ hpassed with heq | ⟨j, heq, hcaller⟩
    · cases heq
    · cases heq
      exact ih hcaller

/-- In every state of a search, a recorded pair has no literal behind it on any walk. Every edge
into its method whose call site exists passes no such argument, one that is not supported, or a
parameter of the caller whose pair is recorded too. -/
theorem failed_grounds_nothing (p : Program) (bound : DepthBound) (owner : MethodId)
    (parameter : Nat) :
    ∀ s ∈ (State.start owner parameter).history p bound (State.sound_start owner parameter),
      ∀ m i, (m, i) ∈ s.failed →
        (∀ edge ∈ p.edgesInto m, ∀ site, p.callSite? edge.site = some site →
          site.arguments[i]? = none ∨ site.arguments[i]? = some .unsupported ∨
          ∃ j, site.arguments[i]? = some (.parameter j) ∧ (edge.caller, j) ∈ s.failed) ∧
        ∀ walk value, ¬ Leads p m i walk value := by
  intro s hs m i hmem
  have hremembers : State.Remembers p s :=
    State.forall_mem_history (fun _ _ h hnext => h.moves (State.moves_of_next hnext))
      (State.sound_start owner parameter) (State.remembers_start p owner parameter) s hs
  refine ⟨fun edge hedge site hsite => ?_, fun walk value hwalk => ?_⟩
  · have hdead := hremembers.closed m i hmem edge hedge
    cases harg : site.arguments[i]? with
    | none => exact .inl rfl
    | some a =>
      have hpassed : State.passed p edge i = some a := by
        rw [State.passed, hsite]
        exact harg
      rcases hdead a hpassed with rfl | ⟨j, rfl, hcaller⟩
      · exact .inr (.inl rfl)
      · exact .inr (.inr ⟨j, rfl, hcaller⟩)
  · exact hwalk.notMem_closed hremembers.closed hmem

/-- A digest that calls itself, and that is called through two wrappers with something that is not
a literal. -/
def loopingDigest : Program where
  name := "looping"
  classes := [⟨"App", none, [0, 1, 2, 3]⟩]
  methods := [
    ⟨0, "App.digest", "App", "digest", "digest(a)", ["a"], true,
      some [⟨0, 0, "App", "digest", [.parameter 0], none⟩]⟩,
    ⟨1, "App.wrap", "App", "wrap", "wrap(a)", ["a"], true,
      some [⟨1, 0, "App", "digest", [.parameter 0], none⟩]⟩,
    ⟨2, "App.choose", "App", "choose", "choose(a)", ["a"], true,
      some [⟨2, 0, "App", "wrap", [.parameter 0], none⟩]⟩,
    ⟨3, "App.run", "App", "run", "run()", [], true,
      some [⟨3, 0, "App", "choose", [.unsupported], none⟩]⟩]
  callGraph := ⟨[[⟨⟨1, 0⟩, 0⟩, ⟨⟨0, 0⟩, 0⟩], [⟨⟨2, 0⟩, 1⟩], [⟨⟨3, 0⟩, 2⟩]], 4⟩

/-- At the end both wrappers are recorded. The digest itself is not, since its call to itself was
cut off. -/
theorem failed_grounds_nothing_looping :
    ∃ s ∈ (State.start 0 0).history loopingDigest none (State.sound_start 0 0),
      s.path = [] ∧ s.failed = [(1, 0), (2, 0)] ∧
      (∀ edge ∈ loopingDigest.edgesInto 1, ∀ site, loopingDigest.callSite? edge.site = some site →
        site.arguments[0]? = none ∨ site.arguments[0]? = some .unsupported ∨
        ∃ j, site.arguments[0]? = some (.parameter j) ∧ (edge.caller, j) ∈ s.failed) ∧
      ∀ walk value, ¬ Leads loopingDigest 1 0 walk value := by
  have hlast : ((State.start 0 0).history loopingDigest none (State.sound_start 0 0)).getLast? =
      some ⟨[], [], [(1, 0), (2, 0)]⟩ := by cbv
  have hmem := List.mem_of_getLast? hlast
  exact ⟨_, hmem, rfl, rfl,
    failed_grounds_nothing loopingDigest none 0 0 _ hmem 1 0 (List.mem_cons_self ..)⟩

/-! ## What a move does to the frames -/

/-- What a frame searches for. -/
def Frame.pair (f : Frame) : MethodId × Nat := (f.method, f.parameter)

namespace State

/-- The frame that a move from `s` to `t` puts on the path. -/
def pushed? (s t : State) : Option Frame :=
  if s.path.length < t.path.length then t.path.head? else none

/-- The frame that a move from `s` to `t` takes off the path. -/
def popped? (s t : State) : Option Frame :=
  if t.path.length < s.path.length then s.path.head? else none

/-- The pairs that are put on the path by a search that goes through these states. -/
def pushes : List State → List (MethodId × Nat)
  | s :: t :: states => ((pushed? s t).map Frame.pair).toList ++ pushes (t :: states)
  | _ => []

/-- The number of states in which there is still a frame to look at. -/
def iterations (states : List State) : Nat := states.countP fun s => !s.path.isEmpty

/-- The number of iterations that the frames of a path still take by themselves. -/
def work (p : Program) (path : List Frame) : Nat := (path.map fun f => remaining p f + 1).sum

/-- What a move may do to the pairs on the path, to the record and to the work that is left. -/
inductive Effect (p : Program) (s t : State) : Prop
  | pop {top : Frame} {rest : List Frame} (hs : s.path = top :: rest)
      (hpopped : popped? s t = some top) (hpushed : pushed? s t = none)
      (hpairs : t.path.map Frame.pair = rest.map Frame.pair)
      (hfailed : t.failed = if top.cut then s.failed else top.pair :: s.failed)
      (hwork : work p t.path + 1 = work p s.path)
  | stay (hpopped : popped? s t = none) (hpushed : pushed? s t = none)
      (hpairs : t.path.map Frame.pair = s.path.map Frame.pair) (hfailed : t.failed = s.failed)
      (hwork : work p t.path + 1 = work p s.path)
  | push {f : Frame} (hpopped : popped? s t = none) (hpushed : pushed? s t = some f)
      (hpairs : t.path.map Frame.pair = f.pair :: s.path.map Frame.pair)
      (hfailed : t.failed = s.failed) (hnew : f.pair ∉ s.failed) (hfree : f.method ∉ s.onPath)
      (hwork : work p t.path + 1 = work p s.path + ((p.edgesInto f.method).length + 1))

section
variable {p : Program} {bound : DepthBound} {s t : State} {states : List State}

/-- Going on to the next edge leaves one iteration less for a frame. -/
theorem remaining_advance {f : Frame} {edge : CallEdge} (cut : Bool)
    (hedge : (p.edgesInto f.method)[f.nextEdge]? = some edge) :
    remaining p { f with nextEdge := f.nextEdge + 1, cut } + 1 = remaining p f := by
  obtain ⟨hlt, -⟩ := List.getElem?_eq_some_iff.1 hedge
  simp only [remaining]
  omega

theorem work_markCut (path : List Frame) : work p (markCut path) = work p path := by
  cases path <;> rfl

theorem pairs_markCut (path : List Frame) :
    (markCut path).map Frame.pair = path.map Frame.pair := by
  cases path <;> rfl

theorem length_markCut (path : List Frame) : (markCut path).length = path.length := by
  cases path <;> rfl

/-- Where marks do not matter, a frame that is closed leaves the rest of the path. -/
theorem apply_path_close {α : Type} (g : List Frame → α) (hg : ∀ path, g (markCut path) = g path)
    (top : Frame) (rest : List Frame) : g (s.close top rest).path = g rest := by
  have hpath : (s.close top rest).path = if top.cut then markCut rest else rest := rfl
  rw [hpath]
  split
  · exact hg rest
  · rfl

/-- Every move has one of the effects. -/
theorem Moves.effect (ht : Moves p bound s t) : Effect p s t := by
  cases ht with
  | @close top rest hs hend =>
    have hlength := apply_path_close (s := s) List.length length_markCut top rest
    have hrest := apply_path_close (s := s) (work p) work_markCut top rest
    have hnone : remaining p top = 0 := Nat.sub_eq_zero_of_le (List.getElem?_eq_none_iff.1 hend)
    refine .pop hs ?_ ?_ (apply_path_close _ pairs_markCut top rest) rfl ?_
    · simp [popped?, hlength, hs]
    · simp [pushed?, hlength, hs]
    · rw [hrest, hs, work, work, List.map_cons, List.sum_cons, hnone]
      omega
  | @skip top rest edge hs hedge | @skipFailed top rest edge i hs hedge =>
    have hnext := remaining_advance top.cut hedge
    refine .stay ?_ ?_ ?_ rfl ?_
    · simp [popped?, State.skip, hs]
    · simp [pushed?, State.skip, hs]
    · simp [State.skip, hs, Frame.pair]
    · simp only [work, State.skip, hs, List.map_cons, List.sum_cons]
      omega
  | @cutOff top rest edge i hs hedge =>
    have hnext := remaining_advance true hedge
    refine .stay ?_ ?_ ?_ rfl ?_
    · simp [popped?, State.cutOff, hs]
    · simp [pushed?, State.cutOff, hs]
    · simp [State.cutOff, hs, Frame.pair]
    · simp only [work, State.cutOff, hs, List.map_cons, List.sum_cons]
      omega
  | @enter top rest edge i hs hedge _ hfailed hlive =>
    have hnext := remaining_advance top.cut hedge
    have hfull : remaining p ⟨edge.caller, i, 0, false⟩ = (p.edgesInto edge.caller).length := rfl
    refine .push (f := ⟨edge.caller, i, 0, false⟩) ?_ ?_ ?_ rfl hfailed
      (fun hmem => hlive (.inl hmem)) ?_
    · simp [popped?, State.enter, hs]
    · simp [pushed?, State.enter, hs]
    · simp [State.enter, hs, Frame.pair]
    · simp only [work, State.enter, hs, List.map_cons, List.sum_cons, hfull]
      omega

theorem effect_of_next (h : s.next p bound = .moved t) : Effect p s t := (moves_of_next h).effect

/-! ## A recorded pair is not searched again -/

/-- The record only grows. -/
theorem Effect.failed_subset (h : Effect p s t) : s.failed ⊆ t.failed := by
  cases h with
  | pop hs hpopped hpushed hpairs hfailed hwork =>
    rw [hfailed]
    split
    · exact List.Subset.refl _
    · exact List.subset_cons_self ..
  | stay hpopped hpushed hpairs hfailed hwork => exact hfailed ▸ List.Subset.refl _
  | push hpopped hpushed hpairs hfailed hnew hfree hwork => exact hfailed ▸ List.Subset.refl _

/-- A frame is put on the path only for a pair that is not recorded. -/
theorem Effect.notMem_failed (h : Effect p s t) {f : Frame} (hf : pushed? s t = some f) :
    f.pair ∉ s.failed := by
  cases h with
  | pop hs hpopped hpushed hpairs hfailed hwork => cases hpushed.symm.trans hf
  | stay hpopped hpushed hpairs hfailed hwork => cases hpushed.symm.trans hf
  | push hpopped hpushed hpairs hfailed hnew hfree hwork =>
    cases hpushed.symm.trans hf
    exact hnew

/-- The pair of a frame that is taken off uncut is recorded. -/
theorem Effect.mem_failed (h : Effect p s t) {f : Frame} (hf : popped? s t = some f)
    (hcut : f.cut = false) : f.pair ∈ t.failed := by
  cases h with
  | pop hs hpopped hpushed hpairs hfailed hwork =>
    cases hpopped.symm.trans hf
    rw [hfailed, hcut]
    exact List.mem_cons_self ..
  | stay hpopped hpushed hpairs hfailed hwork => cases hpopped.symm.trans hf
  | push hpopped hpushed hpairs hfailed hnew hfree hwork => cases hpopped.symm.trans hf

theorem pushes_of_none (h : pushed? s t = none) :
    pushes (s :: t :: states) = pushes (t :: states) := by
  simp [pushes, h]

theorem pushes_of_some {f : Frame} (h : pushed? s t = some f) :
    pushes (s :: t :: states) = f.pair :: pushes (t :: states) := by
  simp [pushes, h]

/-- A pair that is recorded is not put on the path from then on. -/
theorem notMem_pushes (h : (s :: states).IsChain fun s t => s.next p bound = .moved t)
    {q : MethodId × Nat} (hq : q ∈ s.failed) : q ∉ pushes (s :: states) := by
  induction states generalizing s with
  | nil => exact List.not_mem_nil
  | cons t states ih =>
    obtain ⟨hnext, hrest⟩ := List.isChain_cons_cons.1 h
    have heffect := effect_of_next hnext
    have hlater := ih hrest (heffect.failed_subset hq)
    cases hf : pushed? s t with
    | none => rwa [pushes_of_none hf]
    | some f =>
      rw [pushes_of_some hf, List.mem_cons, not_or]
      refine ⟨?_, hlater⟩
      rintro rfl
      exact heffect.notMem_failed hf hq

/-! ## Iterations -/

/-- There are no more iterations than the frames on the path and those that are put there take. -/
theorem iterations_le (h : (s :: states).IsChain fun s t => s.next p bound = .moved t) :
    iterations (s :: states) ≤ work p s.path +
      ((pushes (s :: states)).map fun q => (p.edgesInto q.1).length + 1).sum := by
  induction states generalizing s with
  | nil =>
    cases hs : s.path with
    | nil => simp [iterations, hs]
    | cons top rest =>
      have hle : iterations [s] ≤ 1 := List.countP_le_length
      simp only [work, List.map_cons, List.sum_cons]
      omega
  | cons t states ih =>
    obtain ⟨hnext, hrest⟩ := List.isChain_cons_cons.1 h
    have hle := ih hrest
    have hstep : iterations (s :: t :: states) ≤ iterations (t :: states) + 1 := by
      rw [iterations, List.countP_cons]
      split <;> simp [iterations]
    cases effect_of_next hnext with
    | pop hs hpopped hpushed hpairs hfailed hwork =>
      rw [pushes_of_none hpushed]
      omega
    | stay hpopped hpushed hpairs hfailed hwork =>
      rw [pushes_of_none hpushed]
      omega
    | @push f hpopped hpushed hpairs hfailed hnew hfree hwork =>
      simp only [pushes_of_some hpushed, List.map_cons, List.sum_cons, Frame.pair]
      omega

end

end State

/-! ## Programs without cycles -/

/-- The caller passes a parameter of its own in a call that may reach the method. -/
def Forwards (p : Program) (m caller : MethodId) : Prop :=
  ∃ edge ∈ p.edgesInto m, edge.caller = caller ∧
    ∃ site, p.callSite? edge.site = some site ∧ ∃ j, .parameter j ∈ site.arguments

/-- No method is, through callers that pass parameters on, a caller of itself. -/
def Acyclic (p : Program) : Prop := ∀ m, ¬ Relation.TransGen (Forwards p) m m

/-- A caller that passes a parameter of its own forwards to the method. -/
theorem forwards_of_passed {p : Program} {m : MethodId} {edge : CallEdge} {i j : Nat}
    (hedge : edge ∈ p.edgesInto m) (hpassed : State.passed p edge i = some (.parameter j)) :
    Forwards p m edge.caller := by
  obtain ⟨site, hsite, harg⟩ := Option.bind_eq_some_iff.1 hpassed
  exact ⟨edge, hedge, rfl, site, hsite, j, List.mem_of_getElem? harg⟩

namespace State

/-- Each method on the path is called by the one before it, and no frame is cut. -/
structure Open (p : Program) (s : State) : Prop where
  linked : s.methods.IsChain fun caller m => Forwards p m caller
  uncut : ∀ f ∈ s.path, f.cut = false

section
variable {p : Program} {s t : State} {states : List State}

theorem open_start (p : Program) (owner : MethodId) (parameter : Nat) :
    Open p (start owner parameter) :=
  ⟨.singleton owner, List.forall_mem_singleton.2 rfl⟩

/-- All methods on a path lead through callers to the first one. -/
theorem reaches_head {m : MethodId} {ms : List MethodId}
    (h : (m :: ms).IsChain fun caller m => Forwards p m caller) :
    ∀ x ∈ m :: ms, Relation.ReflTransGen (Forwards p) x m := by
  induction ms generalizing m with
  | nil => exact List.forall_mem_singleton.2 .refl
  | cons callee ms ih =>
    obtain ⟨hcall, hrest⟩ := List.isChain_cons_cons.1 h
    exact List.forall_mem_cons.2 ⟨.refl, fun x hx => (ih hrest x hx).tail hcall⟩

/-- Without cycles, a caller that passes a parameter on is not on the path. -/
theorem Open.caller_notMem (h : Open p s) (hacyclic : Acyclic p) {top : Frame} {rest : List Frame}
    (hs : s.path = top :: rest) {edge : CallEdge} {i j : Nat}
    (hedge : edge ∈ p.edgesInto top.method) (hpassed : passed p edge i = some (.parameter j)) :
    edge.caller ∉ s.methods := by
  intro hmem
  have hlinked := h.linked
  rw [methods, hs, List.map_cons] at hlinked hmem
  have hreaches := reaches_head hlinked edge.caller hmem
  exact hacyclic _ (.tail' hreaches (forwards_of_passed hedge hpassed))

/-- Without cycles and without a depth bound, no frame is ever cut. -/
theorem Open.moves (h : Open p s) (hsound : s.Sound) (hacyclic : Acyclic p)
    (ht : Moves p none s t) : Open p t := by
  refine ⟨?_, ?_⟩
  · rcases ht.methods_cases with heq | heq | ⟨top, rest, edge, i, hs, hedge, hpassed, -, heq⟩
    · exact heq ▸ h.linked
    · exact heq ▸ h.linked.tail
    · have hlinked := h.linked
      rw [heq]
      rw [methods, hs, List.map_cons] at hlinked ⊢
      exact List.isChain_cons_cons.2 ⟨forwards_of_passed hedge hpassed, hlinked⟩
  · cases ht with
    | @close top rest hs =>
      have huncut := h.uncut
      rw [hs, List.forall_mem_cons] at huncut
      simpa [State.close, huncut.1] using huncut.2
    | @skip top rest edge hs | @skipFailed top rest edge i hs =>
      have huncut := h.uncut
      rw [hs, List.forall_mem_cons] at huncut
      exact List.forall_mem_cons.2 huncut
    | @cutOff top rest edge i hs hedge hpassed _ hdead =>
      have hnotMem := h.caller_notMem hacyclic hs (List.mem_of_getElem? hedge) hpassed
      rw [hsound.mem_onPath] at hdead
      exact absurd hdead (by simp [hnotMem, DepthBound.reached])
    | @enter top rest edge i hs =>
      have huncut := h.uncut
      rw [hs, List.forall_mem_cons] at huncut
      exact List.forall_mem_cons.2 ⟨rfl, List.forall_mem_cons.2 huncut⟩

/-- Without cycles and without a depth bound, no pair is put on the path twice, nor one that is
recorded or on the path already. -/
theorem nodup_pushes (hacyclic : Acyclic p)
    (hchain : (s :: states).IsChain fun s t => s.next p none = .moved t) (hsound : s.Sound)
    (hopen : Open p s) :
    (pushes (s :: states)).Nodup ∧
      ∀ q ∈ pushes (s :: states), q ∉ s.failed ∧ q ∉ s.path.map Frame.pair := by
  induction states generalizing s with
  | nil => exact ⟨.nil, List.forall_mem_nil _⟩
  | cons t states ih =>
    obtain ⟨hnext, hrest⟩ := List.isChain_cons_cons.1 hchain
    obtain ⟨hnodup, hnew⟩ :=
      ih hrest (hsound.next hnext) (hopen.moves hsound hacyclic (moves_of_next hnext))
    cases effect_of_next hnext with
    | @pop top rest hs hpopped hpushed hpairs hfailed hwork =>
      -- the pair that leaves the path is recorded, since its frame is not cut
      have hcut : top.cut = false := hopen.uncut top (hs ▸ List.mem_cons_self ..)
      rw [pushes_of_none hpushed]
      refine ⟨hnodup, fun q hq => ?_⟩
      obtain ⟨hrecord, hpath⟩ := hnew q hq
      rw [hfailed, hcut] at hrecord
      rw [hpairs] at hpath
      simp only [Bool.false_eq_true, if_false, List.mem_cons, not_or] at hrecord
      rw [hs, List.map_cons, List.mem_cons, not_or]
      exact ⟨hrecord.2, hrecord.1, hpath⟩
    | stay hpopped hpushed hpairs hfailed hwork =>
      rw [pushes_of_none hpushed, ← hpairs, ← hfailed]
      exact ⟨hnodup, hnew⟩
    | @push f hpopped hpushed hpairs hfailed hfresh hfree hwork =>
      have hmethod : f.pair ∉ s.path.map Frame.pair := by
        intro hmem
        obtain ⟨g, hg, hpair⟩ := List.mem_map.1 hmem
        have hsame : g.method = f.method := congrArg Prod.fst hpair
        exact hfree ((hsound.mem_onPath _).2 (hsame ▸ List.mem_map_of_mem hg))
      rw [hfailed, hpairs] at hnew
      rw [pushes_of_some hpushed]
      refine ⟨List.nodup_cons.2 ⟨fun hmem => ?_, hnodup⟩, List.forall_mem_cons.2
        ⟨⟨hfresh, hmethod⟩, fun q hq => ⟨(hnew q hq).1, fun hmem => ?_⟩⟩⟩
      · exact (hnew _ hmem).2 (List.mem_cons_self ..)
      · exact (hnew q hq).2 (List.mem_cons_of_mem _ hmem)

end

end State

/-- The pairs that a search puts on the path, that where it begins first. -/
def searched (p : Program) (bound : DepthBound) (owner : MethodId) (parameter : Nat) :
    List (MethodId × Nat) :=
  (owner, parameter) :: State.pushes
    ((State.start owner parameter).history p bound (State.sound_start owner parameter))

/-- A pair whose frame has been taken off the path uncut is not put there again. If the calls that
pass parameters on form no cycle and there is no depth bound, no pair is put on the path twice, and
there are no more iterations than the distinct pairs have edges into their methods, and one for each
pair. -/
theorem search_never_repeats (p : Program) (bound : DepthBound) (owner : MethodId)
    (parameter : Nat) :
    (∀ before s t after f,
      (State.start owner parameter).history p bound (State.sound_start owner parameter) =
        before ++ s :: t :: after →
      State.popped? s t = some f → f.cut = false → f.pair ∉ State.pushes (t :: after)) ∧
    (Acyclic p → (searched p none owner parameter).Nodup ∧
      State.iterations
        ((State.start owner parameter).history p none (State.sound_start owner parameter)) ≤
        ∑ q ∈ (searched p none owner parameter).toFinset, ((p.edgesInto q.1).length + 1)) := by
  have hstart := State.sound_start owner parameter
  refine ⟨fun before s t after f hhistory hpopped hcut => ?_, fun hacyclic => ?_⟩
  · obtain ⟨last, hcourse, -⟩ := State.exists_course p bound hstart
    have hchain := hcourse.moves
    rw [hhistory] at hchain
    obtain ⟨hnext, hrest⟩ := List.isChain_cons_cons.1 hchain.right_of_append
    exact State.notMem_pushes hrest ((State.effect_of_next hnext).mem_failed hpopped hcut)
  · obtain ⟨last, hcourse, -⟩ := State.exists_course p none hstart
    obtain ⟨states, hhistory⟩ := List.head?_eq_some_iff.1 hcourse.head
    have hchain := hcourse.moves
    rw [hhistory] at hchain
    rw [searched, hhistory]
    obtain ⟨hnodup, hnew⟩ := State.nodup_pushes hacyclic hchain hstart (State.open_start p ..)
    have hdistinct : ((owner, parameter) :: State.pushes (_ :: states)).Nodup :=
      List.nodup_cons.2 ⟨fun hmem => (hnew _ hmem).2 (List.mem_cons_self ..), hnodup⟩
    refine ⟨hdistinct, ?_⟩
    rw [List.sum_toFinset _ hdistinct]
    have hle := State.iterations_le hchain
    simpa [State.work, State.start, State.remaining] using hle

/-- A digest that a base method reaches in two ways, with each of its parameters in one of them. -/
def diamondDigest : Program where
  name := "diamond"
  classes := [⟨"App", none, [0, 1, 2, 3, 4]⟩]
  methods := [
    ⟨0, "App.digest", "App", "digest", "digest(a)", ["a"], true, some []⟩,
    ⟨1, "App.left", "App", "left", "left(a)", ["a"], true,
      some [⟨1, 0, "App", "digest", [.parameter 0], none⟩]⟩,
    ⟨2, "App.right", "App", "right", "right(a)", ["a"], true,
      some [⟨2, 0, "App", "digest", [.parameter 0], none⟩]⟩,
    ⟨3, "App.base", "App", "base", "base(a, b)", ["a", "b"], true,
      some [⟨3, 0, "App", "left", [.parameter 0], none⟩,
        ⟨3, 1, "App", "right", [.parameter 0], none⟩,
        ⟨3, 2, "App", "right", [.parameter 1], none⟩]⟩,
    ⟨4, "App.run", "App", "run", "run()", [], true,
      some [⟨4, 0, "App", "base", [.unsupported, .literal "MD5"], none⟩]⟩]
  callGraph := ⟨[[⟨⟨1, 0⟩, 0⟩, ⟨⟨2, 0⟩, 0⟩], [⟨⟨3, 0⟩, 1⟩], [⟨⟨3, 1⟩, 2⟩, ⟨⟨3, 2⟩, 2⟩],
    [⟨⟨4, 0⟩, 3⟩]], 5⟩

/-- The calls of the diamond form no cycle, as a caller always has the larger number. -/
theorem acyclic_diamondDigest : Acyclic diamondDigest := by
  have hcaller : ∀ m caller, Forwards diamondDigest m caller → m < caller := by
    rintro m _ ⟨edge, hedge, rfl, -⟩
    rcases m with _ | _ | _ | _ | m
    on_goal 5 => cases hedge
    all_goals
      revert edge
      decide
  have hcallers : ∀ {a b}, Relation.TransGen (Forwards diamondDigest) a b → a < b := by
    intro a b h
    induction h with
    | single h => exact hcaller _ _ h
    | tail _ h ih => exact ih.trans (hcaller _ _ h)
  exact fun m h => Nat.lt_irrefl m (hcallers h)

/-- The base method is reached a second time with the parameter that has failed, which is not
searched again, and then with the other one, which is. -/
theorem search_never_repeats_diamond :
    (∃ before s t after,
      (State.start 0 0).history diamondDigest none (State.sound_start 0 0) =
        before ++ s :: t :: after ∧
      State.popped? s t = some ⟨3, 0, 1, false⟩ ∧
      State.pushes (t :: after) = [(2, 0), (3, 1)] ∧ (3, 0) ∉ State.pushes (t :: after)) ∧
    Acyclic diamondDigest ∧
    searched diamondDigest none 0 0 = [(0, 0), (1, 0), (3, 0), (2, 0), (3, 1)] ∧
    (searched diamondDigest none 0 0).Nodup ∧
    State.iterations ((State.start 0 0).history diamondDigest none (State.sound_start 0 0)) ≤
      ∑ q ∈ (searched diamondDigest none 0 0).toFinset,
        ((diamondDigest.edgesInto q.1).length + 1) := by
  have hhistory : (State.start 0 0).history diamondDigest none (State.sound_start 0 0) =
      [⟨[⟨0, 0, 0, false⟩], [0], []⟩, ⟨[⟨1, 0, 0, false⟩, ⟨0, 0, 1, false⟩], [1, 0], []⟩,
        ⟨[⟨3, 0, 0, false⟩, ⟨1, 0, 1, false⟩, ⟨0, 0, 1, false⟩], [3, 1, 0], []⟩] ++
      ⟨[⟨3, 0, 1, false⟩, ⟨1, 0, 1, false⟩, ⟨0, 0, 1, false⟩], [3, 1, 0], []⟩ ::
      ⟨[⟨1, 0, 1, false⟩, ⟨0, 0, 1, false⟩], [1, 0], [(3, 0)]⟩ ::
      [⟨[⟨0, 0, 1, false⟩], [0], [(1, 0), (3, 0)]⟩,
        ⟨[⟨2, 0, 0, false⟩, ⟨0, 0, 2, false⟩], [2, 0], [(1, 0), (3, 0)]⟩,
        ⟨[⟨2, 0, 1, false⟩, ⟨0, 0, 2, false⟩], [2, 0], [(1, 0), (3, 0)]⟩,
        ⟨[⟨3, 1, 0, false⟩, ⟨2, 0, 2, false⟩, ⟨0, 0, 2, false⟩], [3, 2, 0],
          [(1, 0), (3, 0)]⟩] := by cbv
  obtain ⟨hagain, hacyclic⟩ := search_never_repeats diamondDigest none 0 0
  refine ⟨⟨_, _, _, _, hhistory, rfl, rfl, ?_⟩, acyclic_diamondDigest, ?_,
    hacyclic acyclic_diamondDigest⟩
  · exact hagain _ _ _ _ _ hhistory rfl rfl
  · rw [searched, hhistory]
    rfl

end CryptoAudit.Resolution
