import Mathlib.Data.List.Chain
import CryptoAudit.Proofs.Resolution.Memory
import CryptoAudit.Resolution.Basic

/-!
# The course of a search

A search goes through states, each of them one move after the one before, up to a state from which
there is no move (`State.Course`). On every program and from every method there is such a course,
and it ends with what the search answers (`traceParameter_course`). `State.history` lists the states
of the course. The measure `State.weight` becomes smaller by every move, so its value at the start
bounds their number.

The path stays short all along the course. The method where the search begins need not exist, but
every other method on the path is a caller that was entered, which does exist, and no method is on
the path twice. Under a depth bound a caller is entered only while the path is shorter than the
bound, so that only the first frame can exceed it (`State.Confined`).
-/

namespace CryptoAudit.Resolution

namespace State

/-- The states that a search goes through from `s` on, one move after another, where no move leads
on from the last one. -/
structure Course (p : Program) (bound : DepthBound) (s : State) (states : List State)
    (last : State) : Prop where
  head : states.head? = some s
  moves : states.IsChain fun s t => s.next p bound = .moved t
  getLast : states.getLast? = some last
  stops : ∀ t, last.next p bound ≠ .moved t

section
variable {p : Program} {bound : DepthBound} {s t last : State} {states : List State}

/-! ## Every search has a course -/

theorem Course.single (h : ∀ t, s.next p bound ≠ .moved t) : Course p bound s [s] s :=
  ⟨rfl, .singleton s, rfl, h⟩

/-- A move in front of a course is a course. -/
theorem Course.cons (hnext : s.next p bound = .moved t) (h : Course p bound t states last) :
    Course p bound s (s :: states) last := by
  refine ⟨rfl, List.isChain_cons.2 ⟨fun u hu => ?_, h.moves⟩, ?_, h.stops⟩
  · rw [h.head, Option.mem_some_iff] at hu
    rw [hnext, hu]
  · rw [List.getLast?_cons, h.getLast]
    rfl

/-- The states of the history are the course of the search. It ends with the literal that is found
in the last of them, or with nothing when the path is empty. -/
theorem exists_course (p : Program) (bound : DepthBound) (h : s.Sound) :
    ∃ last, Course p bound s (s.history p bound h) last ∧
      (last.path = [] ∧ s.run p bound h = none ∨
        ∃ value caller, last.next p bound = .found value caller ∧
          s.run p bound h = some ⟨value, caller :: last.methods⟩) := by
  fun_induction history p bound s h with
  | case1 s h value caller hnext =>
    have hstops : ∀ t, s.next p bound ≠ .moved t := fun t ht => by cases hnext.symm.trans ht
    exact ⟨s, .single hstops, .inr ⟨value, caller, hnext, run_of_found h hnext⟩⟩
  | case2 s h hnext =>
    have hstops : ∀ t, s.next p bound ≠ .moved t := fun t ht => by cases hnext.symm.trans ht
    exact ⟨s, .single hstops, .inl ⟨next_eq_exhausted hnext, run_of_exhausted h hnext⟩⟩
  | case3 s h t hnext ih =>
    obtain ⟨last, hcourse, hends⟩ := ih
    rw [run_of_moved h hnext]
    exact ⟨last, hcourse.cons hnext, hends⟩

/-- There are no more moves than the measure of the path. -/
theorem length_history_le (h : s.Sound) : (s.history p bound h).length ≤ weight p s.path + 1 := by
  fun_induction history p bound s h with
  | case1 s h value caller hnext => exact Nat.le_add_left ..
  | case2 s h hnext => exact Nat.le_add_left ..
  | case3 s h t hnext ih =>
    have hlt := next_decreases h hnext
    rw [List.length_cons]
    omega

/-- What holds at first and is kept by every move holds in all states of the history. -/
theorem forall_mem_history {P : State → Prop}
    (hkept : ∀ s t, P s → s.next p bound = .moved t → P t) (h : s.Sound) (hs : P s) :
    ∀ t ∈ s.history p bound h, P t := by
  fun_induction history p bound s h with
  | case1 s h value caller hnext => exact List.forall_mem_singleton.2 hs
  | case2 s h hnext => exact List.forall_mem_singleton.2 hs
  | case3 s h t hnext ih => exact List.forall_mem_cons.2 ⟨hs, ih (hkept s t hs hnext)⟩

end

/-! ## The path stays short -/

/-- The methods that have been entered exist, and the path is no longer than the bound allows. -/
structure Confined (p : Program) (bound : DepthBound) (s : State) : Prop where
  entered : ∀ m ∈ s.methods.dropLast, m < p.methods.length
  within : ∀ d, bound = some d → s.methods.length ≤ max 1 d

section
variable {p : Program} {bound : DepthBound} {s t : State}

theorem confined_start (p : Program) (bound : DepthBound) (owner : MethodId) (parameter : Nat) :
    Confined p bound (start owner parameter) :=
  ⟨by simp [methods, start], fun d _ => Nat.le_max_left 1 d⟩

/-- A move keeps the path confined. -/
theorem Confined.moves (h : Confined p bound s) (ht : Moves p bound s t) : Confined p bound t := by
  rcases ht.methods_cases with heq | heq | ⟨top, rest, edge, i, hs, -, hpassed, hlive, heq⟩
  · exact ⟨heq ▸ h.entered, heq ▸ h.within⟩
  · refine ⟨fun m hm => h.entered m ?_, fun d hd => ?_⟩
    · rw [heq, ← List.tail_dropLast] at hm
      exact List.mem_of_mem_tail hm
    · have hle := h.within d hd
      rw [heq, List.length_tail]
      omega
  · have hne : s.methods ≠ [] := by simp [methods, hs]
    refine ⟨?_, fun d hd => ?_⟩
    · rw [heq, List.dropLast_cons_of_ne_nil hne, List.forall_mem_cons]
      exact ⟨exists_of_passed hpassed, h.entered⟩
    · -- the bound is not reached yet, so there is room for the caller
      have hroom : ¬ d ≤ s.methods.length := by
        intro hle
        exact hlive (.inr (by simpa [hd, DepthBound.reached, methods] using hle))
      rw [heq, List.length_cons]
      omega

/-- Distinct methods that exist are no more than the methods of the program. -/
theorem Confined.length_le (h : Confined p bound s) (hsound : s.Sound) :
    s.methods.length ≤ p.methods.length + 1 := by
  have hnodup : s.methods.dropLast.Nodup := hsound.nodup.sublist (List.dropLast_sublist _)
  have hsub : s.methods.dropLast ⊆ List.range p.methods.length :=
    fun m hm => List.mem_range.2 (h.entered m hm)
  have hle := hnodup.length_le_of_subset hsub
  rw [List.length_dropLast, List.length_range] at hle
  omega

end

end State

/-- On every program and from every method, the search ends after finitely many moves: with nothing
when the path is empty, or with the literal that is found in the last state. In every state on the
way the methods on the path are distinct and `onPath` is their set, there is at most one frame more
than there are methods, and there are no more frames than the depth bound allows. -/
theorem traceParameter_course (p : Program) (bound : DepthBound) (owner : MethodId)
    (parameter : Nat) :
    ∃ states last, State.Course p bound (State.start owner parameter) states last ∧
      states.length ≤ State.weight p (State.start owner parameter).path + 1 ∧
      (last.path = [] ∧ traceParameter p bound owner parameter = none ∨
        ∃ value caller, last.next p bound = .found value caller ∧
          traceParameter p bound owner parameter =
            some (.traced value (qualifiedNames p (caller :: last.methods)))) ∧
      ∀ s ∈ states, s.methods.Nodup ∧ (∀ m, m ∈ s.onPath ↔ m ∈ s.methods) ∧
        s.path.length ≤ p.methods.length + 1 ∧ ∀ d, bound = some d → s.path.length ≤ max 1 d := by
  have hstart := State.sound_start owner parameter
  obtain ⟨last, hcourse, hends⟩ := State.exists_course p bound hstart
  refine ⟨_, last, hcourse, State.length_history_le hstart, ?_, fun s hs => ?_⟩
  · rcases hends with ⟨hpath, hrun⟩ | ⟨value, caller, hnext, hrun⟩
    · exact .inl ⟨hpath, by rw [traceParameter, hrun]; rfl⟩
    · exact .inr ⟨value, caller, hnext, by rw [traceParameter, hrun]; rfl⟩
  · have hsound : s.Sound :=
      State.forall_mem_history (fun _ _ h hnext => h.next hnext) hstart hstart s hs
    have hconfined : State.Confined p bound s :=
      State.forall_mem_history (fun _ _ h hnext => h.moves (State.moves_of_next hnext)) hstart
        (State.confined_start p bound owner parameter) s hs
    have hlength : s.path.length = s.methods.length := by simp [State.methods]
    rw [hlength]
    exact ⟨hsound.nodup, hsound.mem_onPath, hconfined.length_le hsound, hconfined.within⟩

end CryptoAudit.Resolution
