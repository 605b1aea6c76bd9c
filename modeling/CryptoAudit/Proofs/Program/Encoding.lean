import CryptoAudit.Program.Encoding
import CryptoAudit.Proofs.Json.Record

/-!
# Bodies are read back

Indices and line numbers are read only if they fit into 64 and 32 bits, so the parts of a body are
read back if their numbers do (`InRange`). For each part `toExplicitJson` writes null for every fact
that is not known. `toJson` leaves these members out (`omits_toJson`), and whichever of them are
left out, the part is read back (`reads_ofJson?`).
-/

namespace CryptoAudit

open Document Json

/-! ## Operands -/

namespace Operand

/-- The index of a parameter has 64 bits. -/
def InRange : Operand → Prop
  | .parameter i => i < 0x10000000000000000
  | .literal _ | .local _ | .other => True

/-- What is written for an operand is plain, so that it can be read back. -/
theorem plain_toJson (x : Operand) : x.toJson.Plain := by
  cases x with
  | literal s => exact .tag _ (.text s)
  | parameter i => exact .tag _ (plain_nat i)
  | «local» x => exact .tag _ (.text x)
  | other => exact .text _

/-- An operand is read back, if its index is in range. -/
theorem reads_ofJson? {x : Operand} (h : x.InRange) : Reads ofJson? x.toJson x := by
  cases x with
  | literal s => exact .tag (reads_text s) fun data hdata => by simp [ofJson?, hdata]
  | parameter i => exact .tag (reads_index h) fun data hdata => by simp [ofJson?, hdata]
  | «local» x => exact .tag (reads_text x) fun data hdata => by simp [ofJson?, hdata]
  | other => exact .text rfl

end Operand

/-! ## Calls -/

namespace Invocation

/-- The indices have 64 bits and the line number has 32. -/
structure InRange (inv : Invocation) : Prop where
  args : ∀ x ∈ inv.args, x.InRange
  line : ∀ n, inv.line = some n → n < 0x100000000

/-- A call as JSON, with null for what is not known. -/
def toExplicitJson (inv : Invocation) : Json :=
  .object [
    ("declaring_type", .text inv.declaringType),
    ("method", .text inv.method),
    ("args", .list (inv.args.map Operand.toJson)),
    ("result", orNull .text inv.result),
    ("line", orNull .nat inv.line),
    ("callees", orNull .texts inv.callees)]

/-- What is written for a call is plain, so that it can be read back. -/
theorem plain_toExplicitJson (inv : Invocation) : inv.toExplicitJson.Plain := by
  refine .object ?_
  simp only [List.forall_mem_cons]
  exact ⟨.text _, .text _, plain_list Operand.plain_toJson _,
    plain_orNull .text _, plain_orNull plain_nat _, plain_orNull plain_texts _, nofun⟩

/-- What is written for a call is the explicit form without the members that are null. -/
theorem omits_toJson (inv : Invocation) : Omits inv.toExplicitJson inv.toJson := by
  have hknown : OmitsMembers
      [("declaring_type", .text inv.declaringType), ("method", .text inv.method),
        ("args", .list (inv.args.map Operand.toJson))]
      [("declaring_type", .text inv.declaringType), ("method", .text inv.method),
        ("args", .list (inv.args.map Operand.toJson))] :=
    .keep (.text _) (.keep (.text _) (.keep (plain_list Operand.plain_toJson _).omits_refl .nil))
  exact .object (((hknown.append (omitsMembers_toList "result" .text _)).append
    (omitsMembers_toList "line" (fun n => (plain_nat n).omits_refl) _)).append
    (omitsMembers_toList "callees" (fun names => (plain_texts names).omits_refl) _))

/-- A call is read back from its explicit form, if the numbers in it are in range. -/
theorem reads_ofJson? {inv : Invocation} (h : inv.InRange) :
    Reads ofJson? inv.toExplicitJson inv := by
  refine ⟨nofun, fun w hw => ?_⟩
  obtain ⟨ns, hrecord, hfound, -⟩ := hw.record? (by simp)
  simp only [List.forall_mem_cons] at hfound
  obtain ⟨htype, hmethod, hargs, hresult, hline, hcallees, -⟩ := hfound
  rw [ofJson?, hrecord _ (by simp [Field.fixed, Field.loose])]
  simp only [List.map_cons, List.map_nil, Field.fixed, Field.loose,
    htype.required (reads_text _), hmethod.required (reads_text _),
    hargs.orElse (.list fun x hx => Operand.reads_ofJson? (h.args x hx)) [],
    hresult.optional fun s _ => reads_text s, hline.optional fun n hn => reads_line (h.line n hn),
    hcallees.optional fun names _ => reads_texts names]
  rfl

end Invocation

/-! ## Statements and bodies -/

namespace Statement

/-- The operands and calls are in range. -/
def InRange : Statement → Prop
  | .assign _ value => value.InRange
  | .invoke inv => inv.InRange
  | .nop => True

/-- A statement as JSON, with null for what is not known. -/
def toExplicitJson : Statement → Json
  | .assign target value =>
    .tag "assign" (.object [("target", .text target), ("value", value.toJson)])
  | .invoke inv => .tag "invoke" inv.toExplicitJson
  | .nop => .text "nop"

/-- What is written for a statement is plain, so that it can be read back. -/
theorem plain_toExplicitJson (s : Statement) : s.toExplicitJson.Plain := by
  cases s with
  | assign target value =>
    refine .tag _ (.object ?_)
    simp only [List.forall_mem_cons]
    exact ⟨.text _, value.plain_toJson, nofun⟩
  | invoke inv => exact .tag _ inv.plain_toExplicitJson
  | nop => exact .text _

theorem omits_toJson (s : Statement) : Omits s.toExplicitJson s.toJson := by
  cases s with
  | assign | nop => exact (plain_toExplicitJson _).omits_refl
  | invoke inv => exact .object (.keep inv.omits_toJson .nil)

/-- A statement is read back from its explicit form, if the numbers in it are in range. -/
theorem reads_ofJson? {s : Statement} (h : s.InRange) : Reads ofJson? s.toExplicitJson s := by
  cases s with
  | assign target value =>
    refine ⟨nofun, fun w hw => ?_⟩
    obtain ⟨data, rfl, hdata⟩ := hw.tag nofun
    obtain ⟨ns, hrecord, hfound, -⟩ := hdata.record? (by simp)
    simp only [List.forall_mem_cons] at hfound
    obtain ⟨htarget, hvalue, -⟩ := hfound
    simp only [ofJson?, tagged?_tag]
    rw [hrecord _ (by simp [Field.fixed])]
    simp only [List.map_cons, List.map_nil, Field.fixed, htarget.required (reads_text _),
      hvalue.required (Operand.reads_ofJson? h)]
    rfl
  | invoke inv =>
    exact .tag (Invocation.reads_ofJson? h) fun data hdata => by simp [ofJson?, hdata]
  | nop => exact .text rfl

end Statement

namespace Body

/-- The statements are in range and the indices have 64 bits. -/
structure InRange (b : Body) : Prop where
  statements : ∀ s ∈ b.statements, s.InRange
  successors : ∀ lists, b.successors = some lists → ∀ l ∈ lists, ∀ i ∈ l, i < 0x10000000000000000

/-- A body as JSON, with null for what is not known. -/
def toExplicitJson (b : Body) : Json :=
  .object [
    ("statements", .list (b.statements.map Statement.toExplicitJson)),
    ("successors", orNull (fun lists => .list (lists.map fun l => .list (l.map Json.nat)))
      b.successors)]

theorem plain_successors (lists : List (List Nat)) :
    Plain (.list (lists.map fun l => .list (l.map Json.nat))) :=
  plain_list (fun l => plain_list plain_nat l) lists

theorem plain_toExplicitJson (b : Body) : b.toExplicitJson.Plain := by
  refine .object ?_
  simp only [List.forall_mem_cons]
  exact ⟨plain_list Statement.plain_toExplicitJson _, plain_orNull plain_successors _, nofun⟩

theorem omits_toJson (b : Body) : Omits b.toExplicitJson b.toJson :=
  .object (.keep (.list (.map fun s _ => s.omits_toJson))
    (omitsMembers_toList _ (fun lists => (plain_successors lists).omits_refl) _))

/-- A body is read back from its explicit form, if the numbers in it are in range. -/
theorem reads_ofJson? {b : Body} (h : b.InRange) : Reads ofJson? b.toExplicitJson b := by
  refine ⟨nofun, fun w hw => ?_⟩
  obtain ⟨ns, hrecord, hfound, -⟩ := hw.record? (by simp)
  simp only [List.forall_mem_cons] at hfound
  obtain ⟨hstatements, hsuccessors, -⟩ := hfound
  have hlists : ∀ lists, b.successors = some lists → Reads (list? (list? index?))
      (.list (lists.map fun l => .list (l.map Json.nat))) lists :=
    fun lists heq => .list fun l hl => .list fun i hi =>
      reads_index (h.successors lists heq l hl i hi)
  rw [ofJson?, hrecord _ (by simp [Field.fixed, Field.loose])]
  simp only [List.map_cons, List.map_nil, Field.fixed, Field.loose,
    hstatements.required (.list fun s hs => Statement.reads_ofJson? (h.statements s hs)),
    hsuccessors.optional hlists]
  rfl

end Body

/-! ## Locations -/

namespace SourceLocation

theorem plain_toJson (l : SourceLocation) : l.toJson.Plain := by
  refine .object ?_
  simp only [List.forall_mem_cons]
  exact ⟨plain_ofText? _, plain_nat _, nofun⟩

/-- A location is read back, if its line is in range. -/
theorem reads_ofJson? {l : SourceLocation} (h : l.line < 0x100000000) :
    Reads ofJson? l.toJson l := by
  refine ⟨nofun, fun w hw => ?_⟩
  obtain ⟨ns, hrecord, hfound, -⟩ := hw.record? (by simp)
  simp only [List.forall_mem_cons] at hfound
  obtain ⟨hfile, hline, -⟩ := hfound
  rw [ofText?_eq_orNull] at hfile
  rw [ofJson?, hrecord _ (by simp [Field.fixed])]
  simp only [List.map_cons, List.map_nil, Field.fixed,
    hfile.optional fun s _ => reads_text s, hline.required (reads_line h)]
  rfl

end SourceLocation

end CryptoAudit
