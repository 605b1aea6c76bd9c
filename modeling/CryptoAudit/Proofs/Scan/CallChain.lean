import Mathlib.Data.List.Forall2
import CryptoAudit.Proofs.Dataflow.Execution
import CryptoAudit.Proofs.Model.Lowering
import CryptoAudit.Proofs.Resolution.Chain

/-!
# Executions of call chains

A call chain is a list of calls in the bodies of models, where each call may reach the method of
the next one (`CallChain`). An execution of a chain activates the method of its first call. The
activation comes to the call, evaluates the arguments, and activates the method of the next call
with these as its parameters, up to the last call (`Runs`).

The chains by which the search resolves a parameter are chains of edges. In a program that has been
lowered from models an edge comes from a call, so that such a chain is a call chain, and every
execution of it passes the literal for the parameter (`delivers_of_leads`).
-/

namespace CryptoAudit.Execution

open Model Resolution

/-- A statement of a method. -/
structure CallPoint where
  method : MethodId
  statement : Nat
deriving DecidableEq

/-- There is a call at a point of a body. -/
structure CallsAt (sources : List Source) (pt : CallPoint) (b : Body) (inv : Invocation) :
    Prop where
  body : bodyOf sources pt.method = some b
  statement : b.statements[pt.statement]? = some (.invoke inv)

/-- Each call of the list may reach the method of the next one. -/
inductive CallChain (sources : List Source) (methods : List Method) : List CallPoint → Prop
  | last {pt : CallPoint} {b : Body} {inv : Invocation} (hcall : CallsAt sources pt b inv) :
      CallChain sources methods [pt]
  | call {pt next : CallPoint} {rest : List CallPoint} {b : Body} {inv : Invocation}
      (hcall : CallsAt sources pt b inv) (hreach : next.method ∈ resolveCallees methods inv)
      (hrest : CallChain sources methods (next :: rest)) :
      CallChain sources methods (pt :: next :: rest)

/-- An activation with these parameters may come to a call and pass it these values. -/
def Passes {V : Type} (text : String → V) (params : Nat → V) (b : Body) (i : Nat)
    (inv : Invocation) (args : List V) : Prop :=
  ∃ locals, Reaches text params b i locals ∧
    List.Forall₂ (Evaluates text params locals) inv.args args

/-- A chain of calls may run from an activation with these parameters, and its last call then passes
these values. -/
inductive Runs {V : Type} (text : String → V) (sources : List Source) :
    List CallPoint → (Nat → V) → List V → Prop
  | last {pt : CallPoint} {b : Body} {inv : Invocation} {params : Nat → V} {args : List V}
      (hcall : CallsAt sources pt b inv) (hpass : Passes text params b pt.statement inv args) :
      Runs text sources [pt] params args
  | call {pt next : CallPoint} {rest : List CallPoint} {b : Body} {inv : Invocation}
      {params params' : Nat → V} {args out : List V} (hcall : CallsAt sources pt b inv)
      (hpass : Passes text params b pt.statement inv args)
      (hparams : ∀ k v, args[k]? = some v → params' k = v)
      (hrest : Runs text sources (next :: rest) params' out) :
      Runs text sources (pt :: next :: rest) params out

section
variable {sources : List Source} {pt : CallPoint} {b : Body} {inv : Invocation}

/-- There is one call at a point only. -/
theorem CallsAt.unique (h : CallsAt sources pt b inv) {b' : Body} {inv' : Invocation}
    (h' : CallsAt sources pt b' inv') : b = b' ∧ inv = inv' := by
  obtain rfl : b = b' := Option.some.inj (h.body.symm.trans h'.body)
  cases h.statement.symm.trans h'.statement
  exact ⟨rfl, rfl⟩

/-- The invocations of a body are its calls. -/
theorem CallsAt.of_invocation {k : Nat} (hbody : bodyOf sources pt.method = some b)
    (hinv : b.invocations[k]? = some (pt.statement, inv)) : CallsAt sources pt b inv :=
  ⟨hbody, Body.mem_invocations.1 (List.mem_of_getElem? hinv)⟩

/-- The arguments of a call as they are known before it. -/
def knownArguments (b : Body) (i : Nat) (inv : Invocation) : List Argument :=
  inv.args.map (Dataflow.lowerOperand (Dataflow.propagate b) i)

variable {V : Type} {text : String → V} {params : Nat → V} {args out : List V}

/-- What is known of an argument is true of the value that is passed for it. -/
theorem Passes.denotes {i k : Nat} {a : Argument} (h : Passes text params b i inv args)
    (ha : (knownArguments b i inv)[k]? = some a) :
    ∃ v, args[k]? = some v ∧ Denotes text params a v := by
  obtain ⟨locals, hreaches, hargs⟩ := h
  rw [knownArguments, List.getElem?_map, Option.map_eq_some_iff] at ha
  obtain ⟨op, hop, rfl⟩ := ha
  obtain ⟨hk, rfl⟩ := List.getElem?_eq_some_iff.1 hop
  have hk' : k < args.length := hargs.length_eq ▸ hk
  exact ⟨args[k], List.getElem?_eq_getElem hk', lowerOperand_sound hreaches (hargs.get hk hk')⟩

/-- What is known of an argument of the last call is true of the value that is passed for it. -/
theorem Runs.last_denotes {k : Nat} {a : Argument} (h : Runs text sources [pt] params args)
    (hcall : CallsAt sources pt b inv) (ha : (knownArguments b pt.statement inv)[k]? = some a) :
    ∃ v, args[k]? = some v ∧ Denotes text params a v := by
  cases h with
  | last hcall' hpass =>
    obtain ⟨rfl, rfl⟩ := hcall.unique hcall'
    exact hpass.denotes ha

/-- What is known of an argument is true of the parameter that it becomes. -/
theorem Runs.denotes {next : CallPoint} {rest : List CallPoint} {k : Nat} {a : Argument}
    (h : Runs text sources (pt :: next :: rest) params out) (hcall : CallsAt sources pt b inv)
    (ha : (knownArguments b pt.statement inv)[k]? = some a) :
    ∃ params', Denotes text params a (params' k) ∧
      Runs text sources (next :: rest) params' out := by
  cases h with
  | @call _ _ _ _ _ _ params' _ _ hcall' hpass hparams hrest =>
    obtain ⟨rfl, rfl⟩ := hcall.unique hcall'
    obtain ⟨v, hv, hdenotes⟩ := hpass.denotes ha
    refine ⟨params', ?_, hrest⟩
    rw [hparams k v hv]
    exact hdenotes

end

/-! ## Chains of edges -/

/-- The chain can be put before every call in `m`, and every execution of it passes the value for a
parameter of `m`. -/
structure Delivers (sources : List Source) (methods : List Method) (chain : List CallPoint)
    (m : MethodId) (i : Nat) (value : String) : Prop where
  callChain : ∀ {next rest}, next.method = m → CallChain sources methods (next :: rest) →
    CallChain sources methods (chain ++ next :: rest)
  value : ∀ {V : Type} {text : String → V} {next rest params out},
    Runs text sources (chain ++ next :: rest) params out →
      ∃ params' : Nat → V, params' i = text value ∧ Runs text sources (next :: rest) params' out

section
variable {name : String} {sources : List Source} {p : Program}

/-- An edge comes from a call that may reach its method, and passes what is known there. -/
theorem edge_calls (h : lower name sources = .ok p) {m : MethodId} {n : Nat} {edge : CallEdge}
    (hedge : (p.edgesInto m)[n]? = some edge) :
    ∃ pt b inv, pt.method = edge.caller ∧ CallsAt sources pt b inv ∧
      m ∈ resolveCallees p.methods inv ∧
      ∀ (i : Nat) a, (p.callSite? edge.site).bind (·.arguments[i]?) = some a →
        (knownArguments b pt.statement inv)[i]? = some a := by
  obtain ⟨hcallee, b, ⟨i, inv⟩, hbody, hcall, hreach⟩ :=
    (mem_edgesInto_lower h).1 (List.mem_of_getElem? hedge)
  refine ⟨⟨edge.caller, i⟩, b, inv, rfl, .of_invocation hbody hcall, hreach, fun k a hpassed => ?_⟩
  obtain ⟨site, hsite, ha⟩ := Option.bind_eq_some_iff.1 hpassed
  obtain ⟨file, b', call, hbody', hcall', rfl⟩ := callSite?_lower h hsite
  obtain rfl : b = b' := Option.some.inj (hbody.symm.trans hbody')
  obtain rfl : (i, inv) = call := Option.some.inj (hcall.symm.trans hcall')
  exact ha

/-- A chain of edges to a literal is a chain of calls that delivers it. -/
theorem delivers_of_leads (h : lower name sources = .ok p) {m : MethodId} {i : Nat}
    {links : List Link} {value : String} (hleads : Leads p m i links value) :
    ∃ chain, chain.map (·.method) = (links.map (·.edge.caller)).reverse ∧
      Delivers sources p.methods chain m i value := by
  induction hleads with
  | literal hedge hpassed =>
    obtain ⟨pt, b, inv, hmethod, hcall, hreach, hknown⟩ := edge_calls h hedge
    refine ⟨[pt], by simp [hmethod], ?_, ?_⟩
    · rintro next rest rfl hrest
      exact .call hcall hreach hrest
    · intro V text next rest params out hruns
      exact hruns.denotes hcall (hknown _ _ hpassed)
  | parameter hedge hpassed _ ih =>
    obtain ⟨pt, b, inv, hmethod, hcall, hreach, hknown⟩ := edge_calls h hedge
    obtain ⟨chain, hmethods, hdelivers⟩ := ih
    -- Edges are followed back from the owner, so the call of the first edge comes last.
    refine ⟨chain ++ [pt], by simp [hmethod, hmethods], ?_, ?_⟩
    · rintro next rest rfl hrest
      rw [List.append_assoc]
      exact hdelivers.callChain hmethod (.call hcall hreach hrest)
    · intro V text next rest params out hruns
      rw [List.append_assoc] at hruns
      obtain ⟨params₁, hvalue, hruns⟩ := hdelivers.value hruns
      obtain ⟨params₂, hpass, hruns⟩ := hruns.denotes hcall (hknown _ _ hpassed)
      exact ⟨params₂, hpass.trans hvalue, hruns⟩

end

end CryptoAudit.Execution
