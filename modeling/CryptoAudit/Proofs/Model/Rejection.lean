import Mathlib
import CryptoAudit.Proofs.Model.Lowering
import CryptoAudit.Proofs.Traversal

/-!
# Which models are rejected

Lowering checks a body right before it lowers it, so a wrong body is met with a program that is
half built. Which body is reported, and with which words, does not depend on that program: it is
what a search through the methods of the files finds first (`failure?_lower`). So models are
rejected exactly if some body is not well-formed, and the report is about the first such body in
the order of the methods (`lower_eq_error_iff`), where methods without a body count too. In a body
the number of lists is looked at first, then the successors one after the other (`Body.Fault`).
-/

namespace CryptoAudit

namespace Body

/-- What is wrong with the successors of a body, with the words for it: there are too few or too
many lists; or else a successor does not exist, and all before it do. -/
inductive Fault (b : Body) : Defect → String → Prop where
  | listCount {lists : List (List Nat)} (hsuccessors : b.successors = some lists)
      (hcount : lists.length ≠ b.statements.length) :
      Fault b (.listCount lists.length b.statements.length)
        (toString lists.length ++ " successor lists for " ++ toString b.statements.length ++
          " statements")
  | outOfRange {lists : List (List Nat)} {before after : List Nat} {s : Nat}
      (hsuccessors : b.successors = some lists) (hcount : lists.length = b.statements.length)
      (hsplit : lists.flatten = before ++ s :: after)
      (hbefore : ∀ t ∈ before, t < b.statements.length) (hs : b.statements.length ≤ s) :
      Fault b (.outOfRange s) ("successor index " ++ toString s ++ " out of range")

section
variable {b : Body} {d : Defect}

/-- What is wrong with explicit successors is their number, or else the first that is out of
range. -/
theorem defect?_of_successors {lists : List (List Nat)} (h : b.successors = some lists) :
    b.defect? = if lists.length ≠ b.statements.length then
        some (.listCount lists.length b.statements.length)
      else (lists.flatten.find? (b.statements.length ≤ ·)).map .outOfRange := by
  rw [defect?, h, Option.bind_some]

/-- Nothing is wrong with a body if and only if it is well formed. -/
theorem defect?_eq_none_iff : b.defect? = none ↔ b.WellFormed := by
  cases hsuccessors : b.successors with
  | none => simp [defect?, WellFormed, hsuccessors]
  | some lists =>
    have hwellFormed : b.WellFormed ↔ lists.length = b.statements.length ∧
        ∀ s ∈ lists.flatten, s < b.statements.length := by
      simp only [WellFormed, hsuccessors, Option.some.injEq, forall_eq']
    rw [defect?_of_successors hsuccessors, hwellFormed]
    split
    next hcount => exact ⟨nofun, fun h => absurd h.1 hcount⟩
    next hcount =>
      simp only [Option.map_eq_none_iff, List.find?_eq_none, decide_eq_true_eq, Nat.not_le,
        not_not.1 hcount, true_and]

/-- What is found to be wrong with a body is a fault of it, and every fault is found. -/
theorem defect?_eq_some_iff : b.defect? = some d ↔ ∃ words, b.Fault d words := by
  constructor
  · intro h
    obtain ⟨lists, hsuccessors, h⟩ := Option.bind_eq_some_iff.1 h
    split at h
    next hcount =>
      cases h
      exact ⟨_, .listCount hsuccessors hcount⟩
    next hcount =>
      obtain ⟨s, hfind, rfl⟩ := Option.map_eq_some_iff.1 h
      obtain ⟨hs, before, after, hsplit, hbefore⟩ := List.find?_eq_some_iff_append.1 hfind
      exact ⟨_, .outOfRange hsuccessors (not_not.1 hcount) hsplit (by simpa using hbefore)
        (by simpa using hs)⟩
  · rintro ⟨words, hfault⟩
    cases hfault with
    | listCount hsuccessors hcount => rw [defect?_of_successors hsuccessors, if_pos hcount]
    | @outOfRange lists before after s hsuccessors hcount hsplit hbefore hs =>
      have hfind : lists.flatten.find? (b.statements.length ≤ ·) = some s :=
        List.find?_eq_some_iff_append.2
          ⟨decide_eq_true hs, before, after, hsplit, by simpa using hbefore⟩
      rw [defect?_of_successors hsuccessors, if_neg (not_not.2 hcount), hfind, Option.map_some]

/-- A body that is not well-formed has the wrong number of lists or a successor out of range. -/
theorem not_wellFormed_iff : ¬ b.WellFormed ↔ ∃ lists, b.successors = some lists ∧
    (lists.length ≠ b.statements.length ∨ ∃ list ∈ lists, ∃ s ∈ list, b.statements.length ≤ s) := by
  simp only [WellFormed, not_forall, not_and_or, List.mem_flatten, Nat.not_lt]
  grind

end

end Body

namespace Model

/-! ## The first wrong body -/

/-- The report on a body that is to be lowered, if the body is wrong. -/
def PendingBody.report? (pending : PendingBody) : Option BadBody :=
  pending.body.defect?.map (⟨pending.source, pending.method, ·⟩)

theorem failure?_addBody? (methods : List Method) (p : Program) (pending : PendingBody) :
    failure? (addBody? methods p pending) = pending.report? := by
  rw [addBody?, PendingBody.report?]
  cases pending.body.defect? <;> rfl

theorem findSome?_bodiesFrom {β : Type} (f : PendingBody → Option β) (n : Nat) (es : List Entry) :
    (bodiesFrom n es).findSome? f = (es.zipIdx n).findSome? fun e => (e.1.pending e.2).bind f := by
  rw [bodiesFrom, ← List.head?_filterMap, List.filterMap_filterMap, List.head?_filterMap]

/-- The report is what a search through the methods of the files finds first. -/
theorem failure?_lower (name : String) (sources : List Source) :
    failure? (lower name sources) = (entries sources).zipIdx.findSome? fun e =>
      (e.1.pending e.2).bind PendingBody.report? := by
  rw [lower, failure?_foldlM (failure?_addBody? _), (declare_has name sources).bodies,
    findSome?_bodiesFrom]

/-- Nothing is reported of a method if and only if its body, if it has one, is well formed. -/
theorem report?_eq_none_iff {e : Entry} {i : MethodId} :
    (e.pending i).bind PendingBody.report? = none ↔
      ∀ b, e.model.body = some b → b.WellFormed := by
  cases hbody : e.model.body <;>
    simp [Entry.pending, hbody, PendingBody.report?, Body.defect?_eq_none_iff]

/-- What is reported of a method names it and its source, and is a fault of its body. -/
theorem report?_eq_some_iff {e : Entry} {i : MethodId} {r : BadBody} :
    (e.pending i).bind PendingBody.report? = some r ↔ r.method = i ∧ r.source = e.source ∧
      ∃ b words, e.model.body = some b ∧ b.Fault r.defect words := by
  cases hbody : e.model.body with
  | none => simp [Entry.pending, hbody]
  | some b =>
    rw [Entry.pending, hbody, Option.map_some, Option.bind_some, PendingBody.report?,
      Option.map_eq_some_iff]
    simp only [Body.defect?_eq_some_iff]
    constructor
    · rintro ⟨d, ⟨words, hfault⟩, rfl⟩
      exact ⟨rfl, rfl, b, words, rfl, hfault⟩
    · rintro ⟨rfl, hsource, _, words, hb, hfault⟩
      cases hb
      exact ⟨r.defect, ⟨words, hfault⟩, by rw [← hsource]⟩

/-- A report is about the first wrong body of the files: it names the method, by its position among
all methods, and the source in which it stands, and it says what is wrong with the body. All bodies
of methods before it are well-formed. -/
structure BadBody.Reports (r : BadBody) (sources : List Source) (e : Entry) (b : Body)
    (words : String) : Prop where
  method : (entries sources)[r.method]? = some e
  source : r.source = e.source
  body : e.model.body = some b
  fault : b.Fault r.defect words
  message : r.message = "method #" ++ toString r.method ++ ": " ++ words
  first : ∀ i < r.method, ∀ earlier, bodyOf sources i = some earlier → earlier.WellFormed

theorem message_of_fault {r : BadBody} {b : Body} {words : String} (h : b.Fault r.defect words) :
    r.message = "method #" ++ toString r.method ++ ": " ++ words := by
  obtain ⟨source, method, defect⟩ := r
  cases h <;> rfl

section
variable {name : String} {sources : List Source} {r : BadBody}

/-- Lowering fails with a report if and only if this is the report on the first faulty body. -/
theorem lower_eq_error_iff :
    lower name sources = .error r ↔ ∃ e b words, r.Reports sources e b words := by
  rw [← failure?_eq_some_iff, failure?_lower, findSome?_zipIdx_eq_some_iff]
  simp only [report?_eq_some_iff, report?_eq_none_iff]
  constructor
  · rintro ⟨i, e, he, ⟨rfl, hsource, b, words, hbody, hfault⟩, hfirst⟩
    refine ⟨e, b, words, he, hsource, hbody, hfault, message_of_fault hfault, ?_⟩
    intro j hj earlier hearlier
    obtain ⟨e', he', hbody'⟩ := bodyOf_eq_some_iff.1 hearlier
    exact hfirst j hj e' he' earlier hbody'
  · rintro ⟨e, b, words, h⟩
    refine ⟨r.method, e, h.method, ⟨rfl, h.source, b, words, h.body, h.fault⟩, ?_⟩
    intro j hj e' he' earlier hbody'
    exact h.first j hj earlier (bodyOf_eq_some_iff.2 ⟨e', he', hbody'⟩)

/-- Files that come later change nothing about a rejection. -/
theorem lower_append_eq_error (h : lower name sources = .error r) (name' : String)
    (later : List Source) : lower name' (sources ++ later) = .error r := by
  rw [← failure?_eq_some_iff, failure?_lower] at h ⊢
  have hentries : entries (sources ++ later) = entries sources ++ entries later :=
    List.flatMap_append
  rw [hentries, List.zipIdx_append, List.findSome?_append, h, Option.some_or]

theorem mem_entries {e : Entry} : e ∈ entries sources ↔
    ∃ s ∈ sources, ∃ c ∈ s.file.classes, ∃ m ∈ c.methods, e = ⟨s.name, c.name, m⟩ := by
  simp only [entries, List.mem_flatMap, List.mem_map, eq_comm]

end

/-- Lowering fails if and only if some body is not well formed. -/
theorem lower_fails_iff (name : String) (sources : List Source) :
    (∃ r, lower name sources = .error r) ↔
      ∃ e ∈ entries sources, ∃ b, e.model.body = some b ∧ ¬ b.WellFormed := by
  have hfails : (∃ r, lower name sources = .error r) ↔ ¬ ∃ p, lower name sources = .ok p := by
    cases lower name sources <;> simp
  rw [hfails, lower_ok_iff]
  simp only [Body.defect?_eq_none_iff]
  push Not
  rfl

/-- Models are rejected if and only if in some file some method has a body whose successors are of
the wrong number or out of range. The methods of the files are declared under their positions,
those without a body too. The report is about the wrong body whose method has the smallest
position: it names this method and the source of its file, and the number of lists or else the
first successor that does not exist. Files that come later do not change it. -/
theorem lower_rejects_first_fault (name : String) (sources : List Source) :
    ((∃ r, lower name sources = .error r) ↔
      ∃ s ∈ sources, ∃ c ∈ s.file.classes, ∃ m ∈ c.methods, ∃ b lists,
        m.body = some b ∧ b.successors = some lists ∧
          (lists.length ≠ b.statements.length ∨
            ∃ list ∈ lists, ∃ t ∈ list, b.statements.length ≤ t)) ∧
    (∀ i, (declare name sources).program.method? i =
      (entries sources)[i]?.map (·.declaration.toMethod i)) ∧
    (∀ r, lower name sources = .error r ↔ ∃ e b words, r.Reports sources e b words) ∧
    ∀ r, lower name sources = .error r →
      ∀ name' later, lower name' (sources ++ later) = .error r := by
  refine ⟨?_, fun i => ?_, fun r => lower_eq_error_iff, fun r h => lower_append_eq_error h⟩
  · rw [lower_fails_iff]
    simp only [mem_entries, Body.not_wellFormed_iff]
    constructor
    · rintro ⟨_, ⟨s, hs, c, hc, m, hm, rfl⟩, b, hbody, lists, hwrong⟩
      exact ⟨s, hs, c, hc, m, hm, b, lists, hbody, hwrong⟩
    · rintro ⟨s, hs, c, hc, m, hm, b, lists, hbody, hwrong⟩
      exact ⟨_, ⟨s, hs, c, hc, m, hm, rfl⟩, b, hbody, lists, hwrong⟩
  · rw [Program.method?, (declare_has name sources).methods, getElem?_methodsFrom]

/-- The second file has two wrong bodies. The first of them is reported, with the first of its two
successors that do not exist; its position counts the method without a body. -/
example :
    lower "app" [
      ⟨"a.json", ⟨none, [⟨"Box", none, [
        ⟨"open", none, ["key"], false, none⟩,
        ⟨"seal", none, [], true,
          some ⟨[.invoke ⟨"Box", "open", [.literal "AES"], none, none, none⟩], some [[]]⟩⟩]⟩]⟩⟩,
      ⟨"b.json", ⟨none, [⟨"Log", none, [
        ⟨"write", none, [], true, some ⟨[.nop, .nop], some [[1], [2, 9]]⟩⟩,
        ⟨"flush", none, [], true, some ⟨[.nop], some []⟩⟩]⟩]⟩⟩] =
      .error ⟨"b.json", 2, .outOfRange 2⟩ := by
  cbv

end Model

end CryptoAudit
