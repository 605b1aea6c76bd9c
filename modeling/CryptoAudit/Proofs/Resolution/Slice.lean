import Mathlib
import CryptoAudit.Proofs.Resolution.Memory
import CryptoAudit.Scan

/-!
# What the search reads of a program

The search for a parameter looks at the edges into the methods on its path, at the call sites of
these edges and at the names of the methods. It goes only to callers, so a set of methods that
contains the callers of its members (`CallersWithin`) is never left. If two programs are the same on
such a set (`SameOn`), the searches in both make the same moves (`State.next_eq_of_sameOn`),
whatever else the programs hold, and end with the same value and trace (`SameOn.resolve_eq`).

The smallest such set that contains a method are its callers, directly or through others
(`Upstream`). Whatever is not among them cannot change what is found in the method.
-/

namespace CryptoAudit.Resolution

/-- The programs have the same edges into the methods of `R`, the same call sites at these edges,
and the same names for these methods. -/
structure SameOn (R : Set MethodId) (p q : Program) : Prop where
  edgesInto_eq : ∀ m ∈ R, q.edgesInto m = p.edgesInto m
  callSite?_eq : ∀ m ∈ R, ∀ e ∈ p.edgesInto m, q.callSite? e.site = p.callSite? e.site
  name_eq : ∀ m ∈ R, (q.method? m).map (·.qualifiedName) = (p.method? m).map (·.qualifiedName)

/-- A call site that exists and calls a method of `R` stands in a method of `R`. -/
def CallersWithin (p : Program) (R : Set MethodId) : Prop :=
  ∀ m ∈ R, ∀ e ∈ p.edgesInto m, ∀ site, p.callSite? e.site = some site → e.caller ∈ R

section
variable {R : Set MethodId} {p q : Program} {bound : DepthBound}

theorem SameOn.passed_eq (h : SameOn R p q) {m : MethodId} (hm : m ∈ R) {e : CallEdge}
    (he : e ∈ p.edgesInto m) (i : Nat) : State.passed q e i = State.passed p e i := by
  rw [State.passed, h.callSite?_eq m hm e he, State.passed]

/-- A caller that passes an argument to a method of the slice is in the slice. -/
theorem CallersWithin.caller_mem (h : CallersWithin p R) {m : MethodId} (hm : m ∈ R) {e : CallEdge}
    (he : e ∈ p.edgesInto m) {i : Nat} {a : Argument} (hpassed : State.passed p e i = some a) :
    e.caller ∈ R := by
  obtain ⟨site, hsite, -⟩ := Option.bind_eq_some_iff.1 hpassed
  exact h m hm e he site hsite

namespace State

variable {s t : State}

/-- Both searches make the same move from a path in `R`. -/
theorem next_eq_of_sameOn (h : SameOn R p q) (hs : ∀ m ∈ s.methods, m ∈ R) :
    s.next q bound = s.next p bound := by
  unfold next
  cases hpath : s.path with
  | nil => rfl
  | cons top rest =>
    have htop : top.method ∈ R := hs _ (by simp [methods, hpath])
    dsimp only
    rw [h.edgesInto_eq _ htop]
    cases hedge : (p.edgesInto top.method)[top.nextEdge]? with
    | none => rfl
    | some edge =>
      dsimp only
      rw [h.passed_eq htop (List.mem_of_getElem? hedge)]

/-- A move does not leave `R`. -/
theorem Moves.methods_mem (hmoves : Moves p bound s t) (hR : CallersWithin p R)
    (hs : ∀ m ∈ s.methods, m ∈ R) : ∀ m ∈ t.methods, m ∈ R := by
  rcases hmoves.methods_cases with heq | heq | ⟨top, rest, edge, i, hpath, hedge, hpassed, -, heq⟩
  · rwa [heq]
  · intro m hm
    rw [heq] at hm
    exact hs m (List.mem_of_mem_tail hm)
  · have htop : top.method ∈ R := hs _ (by simp [methods, hpath])
    rw [heq, List.forall_mem_cons]
    exact ⟨hR.caller_mem htop hedge hpassed, hs⟩

/-- Both searches find the same from a path in `R`, and the trace is in `R` too. -/
theorem run_eq_of_sameOn (h : SameOn R p q) (hR : CallersWithin p R) (bound : DepthBound)
    (hsound : s.Sound) (hs : ∀ m ∈ s.methods, m ∈ R) :
    s.run q bound hsound = s.run p bound hsound ∧
      ∀ hit, s.run p bound hsound = some hit → ∀ m ∈ hit.trace, m ∈ R := by
  -- The induction follows the search in `p`; each move of it is a move in `q` too.
  fun_induction run p bound s hsound with
  | case1 s hsound value caller hnext =>
    refine ⟨run_of_found hsound ((next_eq_of_sameOn h hs).trans hnext), ?_⟩
    rintro hit ⟨⟩
    obtain ⟨top, rest, edge, hpath, hedge, rfl, hpassed⟩ := next_eq_found hnext
    have htop : top.method ∈ R := hs _ (by simp [methods, hpath])
    exact List.forall_mem_cons.2
      ⟨hR.caller_mem htop (List.mem_of_getElem? hedge) hpassed, hs⟩
  | case2 s hsound hnext =>
    refine ⟨run_of_exhausted hsound ((next_eq_of_sameOn h hs).trans hnext), ?_⟩
    rintro hit ⟨⟩
  | case3 s hsound t hnext ih =>
    rw [run_of_moved hsound ((next_eq_of_sameOn h hs).trans hnext)]
    exact ih ((moves_of_next hnext).methods_mem hR hs)

end State

theorem SameOn.qualifiedNames_eq (h : SameOn R p q) {ms : List MethodId} (hms : ∀ m ∈ ms, m ∈ R) :
    qualifiedNames q ms = qualifiedNames p ms :=
  List.filterMap_congr fun m hm => h.name_eq m (hms m hm)

/-- An argument in a method of `R` has the same value, provenance and trace in both programs. -/
theorem SameOn.resolve_eq (h : SameOn R p q) (hR : CallersWithin p R) {owner : MethodId}
    (howner : owner ∈ R) (bound : DepthBound) (arg : Argument) :
    resolve q bound owner arg = resolve p bound owner arg := by
  cases arg with
  | literal | unsupported => rfl
  | parameter i =>
    have hstart : ∀ m ∈ (State.start owner i).methods, m ∈ R := by
      simpa [State.methods, State.start] using howner
    obtain ⟨hrun, htrace⟩ :=
      State.run_eq_of_sameOn h hR bound (State.sound_start owner i) hstart
    rw [resolve, resolve, traceParameter, traceParameter, hrun]
    cases hhit : (State.start owner i).run p bound (State.sound_start owner i) with
    | none => rfl
    | some hit =>
      rw [Option.map_some, Option.map_some, h.qualifiedNames_eq (htrace hit hhit)]

/-- A scan finds the same in a method of `R` in both programs. -/
theorem SameOn.scanMethod_eq (h : SameOn R p q) (hR : CallersWithin p R) {method : Method}
    (hmethod : method.id ∈ R) (index : RuleIndex) (bound : DepthBound) :
    Scan.scanMethod q index bound method = Scan.scanMethod p index bound method := by
  have halgorithm : Scan.algorithmAt q bound method = Scan.algorithmAt p bound method := by
    funext site rule
    unfold Scan.algorithmAt
    split
    · exact h.resolve_eq hR hmethod bound _
    · rfl
  rw [Scan.scanMethod, halgorithm, Scan.scanMethod]

end

/-! ## The callers of a method -/

/-- The method itself, and the methods that call it directly or through others. -/
inductive Upstream (p : Program) (owner : MethodId) : MethodId → Prop
  | self : Upstream p owner owner
  | caller {m : MethodId} {e : CallEdge} {site : CallSite} (hm : Upstream p owner m)
      (he : e ∈ p.edgesInto m) (hsite : p.callSite? e.site = some site) :
      Upstream p owner e.caller

theorem callersWithin_upstream (p : Program) (owner : MethodId) :
    CallersWithin p {m | Upstream p owner m} :=
  fun _ hm _ he _ hsite => .caller hm he hsite

/-- If two programs are the same on a set of methods that contains the callers of its members, then
arguments in these methods resolve to the same value, provenance and trace. Hence the findings in a
method can change only with the method itself and its callers. -/
theorem resolve_eq_of_sameOn (p q : Program) (bound : DepthBound) :
    (∀ R, SameOn R p q → CallersWithin p R → ∀ owner ∈ R, ∀ arg,
      resolve q bound owner arg = resolve p bound owner arg) ∧
    ∀ (rules : RuleSet) (method : Method), SameOn {m | Upstream p method.id m} p q →
      Scan.scanMethod q (.ofRules rules) bound method =
        Scan.scanMethod p (.ofRules rules) bound method := by
  constructor
  · intro R h hR owner howner arg
    exact h.resolve_eq hR howner bound arg
  · intro rules method h
    exact h.scanMethod_eq (callersWithin_upstream p method.id) .self _ bound

/-- A digest that calls itself, the method that calls it with a literal, and a third method. -/
def sliceBefore : Program where
  name := "slice"
  classes := [⟨"App", none, [0, 1]⟩, ⟨"Log", none, [2]⟩]
  methods := [
    ⟨0, "App.run", "App", "run", "run()", [], true,
      some [⟨0, 0, "App", "digest", [.literal "MD5"], none⟩]⟩,
    ⟨1, "App.digest", "App", "digest", "digest(a)", ["a"], true,
      some [⟨1, 0, "App", "digest", [.parameter 0], none⟩,
        ⟨1, 1, "Log", "write", [.parameter 0], none⟩]⟩,
    ⟨2, "Log.write", "Log", "write", "write(text)", ["text"], true, some []⟩]
  callGraph := ⟨[[], [⟨⟨1, 0⟩, 1⟩, ⟨⟨0, 0⟩, 1⟩], [⟨⟨1, 1⟩, 2⟩]], 3⟩

/-- The same digest, with another method in the third place that is called with another literal. -/
def sliceAfter : Program where
  name := "slice"
  classes := [⟨"App", none, [0, 1]⟩, ⟨"Net", none, [2]⟩]
  methods := [
    ⟨0, "App.run", "App", "run", "run()", [], true,
      some [⟨0, 0, "App", "digest", [.literal "MD5"], none⟩]⟩,
    ⟨1, "App.digest", "App", "digest", "digest(a)", ["a"], true,
      some [⟨1, 0, "App", "digest", [.parameter 0], none⟩]⟩,
    ⟨2, "Net.send", "Net", "send", "send()", [], true,
      some [⟨2, 0, "Net", "send", [.literal "SHA-1"], none⟩]⟩]
  callGraph := ⟨[[], [⟨⟨1, 0⟩, 1⟩, ⟨⟨0, 0⟩, 1⟩], [⟨⟨2, 0⟩, 2⟩]], 3⟩

/-- What the digest is called with does not depend on the third method. -/
theorem resolve_eq_of_sameOn_digest :
    SameOn {0, 1} sliceBefore sliceAfter ∧ CallersWithin sliceBefore {0, 1} ∧
      resolve sliceBefore none 1 (.parameter 0) = .traced "MD5" ["App.run", "App.digest"] ∧
      resolve sliceAfter none 1 (.parameter 0) = resolve sliceBefore none 1 (.parameter 0) := by
  have hsame : SameOn {0, 1} sliceBefore sliceAfter := by
    refine ⟨?_, ?_, ?_⟩
    · rintro m (rfl | rfl) <;> rfl
    · rintro m (rfl | rfl)
      · exact fun e he => nomatch he
      · exact List.forall_mem_cons.2 ⟨rfl, List.forall_mem_singleton.2 rfl⟩
    · rintro m (rfl | rfl) <;> rfl
  have hwithin : CallersWithin sliceBefore {0, 1} := by
    rintro m (rfl | rfl)
    · exact fun e he => nomatch he
    · exact List.forall_mem_cons.2
        ⟨fun _ _ => .inr rfl, List.forall_mem_singleton.2 fun _ _ => .inl rfl⟩
  refine ⟨hsame, hwithin, by cbv, ?_⟩
  exact (resolve_eq_of_sameOn sliceBefore sliceAfter none).1 {0, 1} hsame hwithin 1 (.inr rfl) _

end CryptoAudit.Resolution
