import CryptoAudit.Model.Basic
import CryptoAudit.Proofs.Program.Encoding

/-!
# Models are read back

A model that is written as JSON and parsed is the same model, if its indices have 64 bits and its
line numbers 32. This holds for the text that `toJson` gives and for every other one in which a
fact that is not known is null in some places and left out in others, compact or indented.
-/

namespace CryptoAudit

open Document Json

namespace MethodModel

/-- The body is in range. -/
def InRange (m : MethodModel) : Prop :=
  ∀ b, m.body = some b → b.InRange

/-- A method of a model as JSON, with null for what is not known. -/
def toExplicitJson (m : MethodModel) : Json :=
  .object [
    ("name", .text m.name),
    ("signature", orNull .text m.signature),
    ("parameters", .texts m.parameters),
    ("concrete", .bool m.isConcrete),
    ("body", orNull Body.toExplicitJson m.body)]

/-- What is written for a method is plain, so that it can be read back. -/
theorem plain_toExplicitJson (m : MethodModel) : m.toExplicitJson.Plain := by
  refine .object ?_
  simp only [List.forall_mem_cons]
  exact ⟨.text _, plain_orNull .text _, plain_texts _, .bool _,
    plain_orNull Body.plain_toExplicitJson _, nofun⟩

/-- What is written for a method is the explicit form without some null members of its body. -/
theorem omits_toJson (m : MethodModel) : Omits m.toExplicitJson m.toJson := by
  obtain ⟨name, signature, parameters, isConcrete, body⟩ := m
  refine .object (.keep (.text _) (.keep (omits_ofText? _) (.keep (plain_texts _).omits_refl
    (.keep (.bool _) (.keep ?_ .nil)))))
  cases body with
  | none => exact .null
  | some b => exact b.omits_toJson

/-- A method is read back from its explicit form, if the numbers in it are in range. -/
theorem reads_ofJson? {m : MethodModel} (h : m.InRange) : Reads ofJson? m.toExplicitJson m := by
  refine ⟨nofun, fun w hw => ?_⟩
  obtain ⟨ns, hrecord, hfound, -⟩ := hw.record? (by simp)
  simp only [List.forall_mem_cons] at hfound
  obtain ⟨hname, hsignature, hparameters, hconcrete, hbody, -⟩ := hfound
  rw [ofJson?, hrecord _ (by simp [Field.fixed, Field.loose])]
  simp only [List.map_cons, List.map_nil, Field.fixed, Field.loose,
    hname.required (reads_text _), hsignature.optional fun s _ => reads_text s,
    hparameters.orElse (reads_texts _) [], hconcrete.orElse (reads_bool _) true,
    hbody.optional fun b hb => Body.reads_ofJson? (h b hb)]
  rfl

end MethodModel

namespace ClassModel

/-- The methods are in range. -/
def InRange (c : ClassModel) : Prop :=
  ∀ m ∈ c.methods, m.InRange

/-- A class of a model as JSON, with null for what is not known. -/
def toExplicitJson (c : ClassModel) : Json :=
  .object [
    ("name", .text c.name),
    ("source_file", orNull .text c.sourceFile),
    ("methods", .list (c.methods.map MethodModel.toExplicitJson))]

theorem plain_toExplicitJson (c : ClassModel) : c.toExplicitJson.Plain := by
  refine .object ?_
  simp only [List.forall_mem_cons]
  exact ⟨.text _, plain_orNull .text _, plain_list MethodModel.plain_toExplicitJson _, nofun⟩

theorem omits_toJson (c : ClassModel) : Omits c.toExplicitJson c.toJson :=
  .object (.keep (.text _) (.keep (omits_ofText? _)
    (.keep (.list (.map fun m _ => m.omits_toJson)) .nil)))

/-- A class is read back from its explicit form, if the numbers in it are in range. -/
theorem reads_ofJson? {c : ClassModel} (h : c.InRange) : Reads ofJson? c.toExplicitJson c := by
  refine ⟨nofun, fun w hw => ?_⟩
  obtain ⟨ns, hrecord, hfound, -⟩ := hw.record? (by simp)
  simp only [List.forall_mem_cons] at hfound
  obtain ⟨hname, hfile, hmethods, -⟩ := hfound
  rw [ofJson?, hrecord _ (by simp [Field.fixed, Field.loose])]
  simp only [List.map_cons, List.map_nil, Field.fixed, Field.loose,
    hname.required (reads_text _), hfile.optional fun s _ => reads_text s,
    hmethods.orElse (.list fun m hm => MethodModel.reads_ofJson? (h m hm)) []]
  rfl

end ClassModel

namespace ModelFile

/-- The classes are in range. -/
def InRange (f : ModelFile) : Prop :=
  ∀ c ∈ f.classes, c.InRange

/-- A model as JSON, with null for what is not known. -/
def toExplicitJson (f : ModelFile) : Json :=
  .object [
    ("name", orNull .text f.name),
    ("classes", .list (f.classes.map ClassModel.toExplicitJson))]

theorem plain_toExplicitJson (f : ModelFile) : f.toExplicitJson.Plain := by
  refine .object ?_
  simp only [List.forall_mem_cons]
  exact ⟨plain_orNull .text _, plain_list ClassModel.plain_toExplicitJson _, nofun⟩

theorem omits_toJson (f : ModelFile) : Omits f.toExplicitJson f.toJson :=
  .object (.keep (omits_ofText? _) (.keep (.list (.map fun c _ => c.omits_toJson)) .nil))

/-- A model is read back from its explicit form, if the numbers in it are in range. -/
theorem reads_ofJson? {f : ModelFile} (h : f.InRange) : Reads ofJson? f.toExplicitJson f := by
  refine ⟨nofun, fun w hw => ?_⟩
  obtain ⟨ns, hrecord, hfound, -⟩ := hw.record? (by simp)
  simp only [List.forall_mem_cons] at hfound
  obtain ⟨hname, hclasses, -⟩ := hfound
  rw [ofJson?, hrecord _ (by simp [Field.loose])]
  simp only [List.map_cons, List.map_nil, Field.loose, hname.optional fun s _ => reads_text s,
    hclasses.orElse (.list fun c hc => ClassModel.reads_ofJson? (h c hc)) []]
  rfl

/-- A model is read back from its text, and from every text that has null for some of the facts that
are not known and leaves the others out. -/
theorem parse?_of_omits {f : ModelFile} (hf : f.InRange) :
    parse? f.toJson.toCompact = some f ∧ parse? f.toJson.toPretty = some f ∧
      ∀ v, Omits f.toExplicitJson v → parse? v.toCompact = some f ∧ parse? v.toPretty = some f := by
  have hparse : ∀ v, Omits f.toExplicitJson v →
      parse? v.toCompact = some f ∧ parse? v.toPretty = some f := by
    intro v hv
    have hplain : Plain v := hv.plain f.plain_toExplicitJson
    have hread : ofJson? v = some f := (reads_ofJson? hf).read_eq v hv
    constructor
    · rw [parse?, hplain.parse?_toCompact, Option.bind_some, hread]
    · rw [parse?, hplain.parse?_toPretty, Option.bind_some, hread]
  obtain ⟨hcompact, hpretty⟩ := hparse _ f.omits_toJson
  exact ⟨hcompact, hpretty, hparse⟩

/-- A model that says little of its one method, with the largest numbers there are. -/
def sketch : ModelFile where
  name := none
  classes := [
    { name := "a.Ω"
      sourceFile := none
      methods := [
        { name := "m"
          signature := none
          parameters := ["x"]
          isConcrete := false
          body := some {
            statements := [
              .assign "s" (.literal "\"\\\n\x01😀"),
              .invoke {
                declaringType := "C", method := "get"
                args := [.parameter 18446744073709551615, .local "s", .other]
                result := none, line := some 4294967295, callees := none },
              .nop]
            successors := some [[1, 2], [], [0]] } }] }]

/-- The model is read from a text in which some of what is not known is null and the rest left
out. -/
theorem parse?_of_omits_sketch : sketch.InRange ∧
    parse? (Json.object [("classes", .list [.object [
      ("name", .text "a.Ω"), ("source_file", .null), ("methods", .list [.object [
        ("name", .text "m"), ("parameters", .texts ["x"]), ("concrete", .bool false),
        ("body", .object [
          ("statements", .list [
            .tag "assign" (.object [
              ("target", .text "s"), ("value", .tag "literal" (.text "\"\\\n\x01😀"))]),
            .tag "invoke" (.object [
              ("declaring_type", .text "C"), ("method", .text "get"),
              ("args", .list [
                .tag "parameter" (.nat 18446744073709551615), .tag "local" (.text "s"),
                .text "other"]),
              ("line", .nat 4294967295), ("callees", .null)]),
            .text "nop"]),
          ("successors", .list [.list [.nat 1, .nat 2], .list [], .list [.nat 0]])])]])]])]).toPretty
      = some sketch := by
  have hcall : Invocation.InRange {
      declaringType := "C", method := "get"
      args := [.parameter 18446744073709551615, .local "s", .other]
      result := none, line := some 4294967295, callees := none } :=
    ⟨by simp [Operand.InRange], by simp⟩
  have hrange : sketch.InRange := by
    simp only [InRange, ClassModel.InRange, MethodModel.InRange, sketch, List.forall_mem_singleton,
      Option.some.injEq, forall_eq']
    exact ⟨by simp [Statement.InRange, Operand.InRange, hcall], by simp⟩
  refine ⟨hrange, ((parse?_of_omits hrange).2.2 _ ?_).2⟩
  simp only [sketch, toExplicitJson, ClassModel.toExplicitJson, MethodModel.toExplicitJson,
    Body.toExplicitJson, Statement.toExplicitJson, Invocation.toExplicitJson, Operand.toJson,
    List.map_cons, List.map_nil, orNull]
  repeat' constructor

end ModelFile

end CryptoAudit
