import CryptoAudit.Proofs.Program.Encoding

/-!
# Programs are read back

A program that is written as JSON and parsed is the same program, whether or not its parts fit
together. The one condition is that its numbers are among those that a reader accepts, 64 bits for
indices and counts and 32 for lines (`Program.InRange`). A fact that is not known (the source file
of a class, the location of a call site, the body of a method) is written as null and read as not
known, so that a body without call sites and no body at all stay different.
-/

namespace CryptoAudit

open Document Json

/-! ## Call sites -/

namespace Argument

/-- The index of a parameter has 64 bits. -/
def InRange : Argument → Prop
  | .parameter i => i < 0x10000000000000000
  | .literal _ | .unsupported => True

/-- What is written for an argument is plain, so that it can be read back. -/
theorem plain_toJson (a : Argument) : a.toJson.Plain := by
  cases a with
  | literal s => exact .tag _ (.text s)
  | parameter i => exact .tag _ (plain_nat i)
  | unsupported => exact .text _

/-- An argument is read back, if its index is in range. -/
theorem reads_ofJson? {a : Argument} (h : a.InRange) : Reads ofJson? a.toJson a := by
  cases a with
  | literal s => exact .tag (reads_text s) fun data hdata => by simp [ofJson?, hdata]
  | parameter i => exact .tag (reads_index h) fun data hdata => by simp [ofJson?, hdata]
  | unsupported => exact .text rfl

end Argument

namespace CallSite

/-- The indices have 64 bits and the line number has 32. -/
structure InRange (s : CallSite) : Prop where
  caller : s.caller < 0x10000000000000000
  index : s.index < 0x10000000000000000
  arguments : ∀ a ∈ s.arguments, a.InRange
  location : ∀ l, s.location = some l → l.line < 0x100000000

/-- A call site is written with null for a location that is not known. -/
theorem toJson_eq (s : CallSite) : s.toJson = .object [
    ("caller", .nat s.caller),
    ("index", .nat s.index),
    ("declaring_type", .text s.declaringType),
    ("method_name", .text s.methodName),
    ("arguments", .list (s.arguments.map Argument.toJson)),
    ("location", orNull SourceLocation.toJson s.location)] := by
  obtain ⟨_, _, _, _, _, _ | _⟩ := s <;> rfl

/-- What is written for a call site is plain, so that it can be read back. -/
theorem plain_toJson (s : CallSite) : s.toJson.Plain := by
  rw [toJson_eq]
  refine .object ?_
  simp only [List.forall_mem_cons]
  exact ⟨plain_nat _, plain_nat _, .text _, .text _, plain_list Argument.plain_toJson _,
    plain_orNull SourceLocation.plain_toJson _, nofun⟩

/-- A call site is read back, if the numbers in it are in range. -/
theorem reads_ofJson? {s : CallSite} (h : s.InRange) : Reads ofJson? s.toJson s := by
  rw [toJson_eq]
  refine ⟨nofun, fun w hw => ?_⟩
  obtain ⟨ns, hrecord, hfound, -⟩ := hw.record? (by simp)
  simp only [List.forall_mem_cons] at hfound
  obtain ⟨hcaller, hindex, htype, hname, harguments, hlocation, -⟩ := hfound
  rw [ofJson?, hrecord _ (by simp [Field.fixed])]
  simp only [List.map_cons, List.map_nil, Field.fixed, hcaller.required (reads_index h.caller),
    hindex.required (reads_index h.index), htype.required (reads_text _),
    hname.required (reads_text _),
    harguments.required (.list fun a ha => Argument.reads_ofJson? (h.arguments a ha)),
    hlocation.optional fun l hl => SourceLocation.reads_ofJson? (h.location l hl)]
  rfl

end CallSite

/-! ## The call graph -/

namespace SiteId

/-- The indices have 64 bits. -/
structure InRange (s : SiteId) : Prop where
  method : s.method < 0x10000000000000000
  index : s.index < 0x10000000000000000

theorem plain_toJson (s : SiteId) : s.toJson.Plain := by
  refine .object ?_
  simp only [List.forall_mem_cons]
  exact ⟨plain_nat _, plain_nat _, nofun⟩

/-- The name of a call site is read back, if the numbers in it are in range. -/
theorem reads_ofJson? {s : SiteId} (h : s.InRange) : Reads ofJson? s.toJson s := by
  refine ⟨nofun, fun w hw => ?_⟩
  obtain ⟨ns, hrecord, hfound, -⟩ := hw.record? (by simp)
  simp only [List.forall_mem_cons] at hfound
  obtain ⟨hmethod, hindex, -⟩ := hfound
  rw [ofJson?, hrecord _ (by simp [Field.fixed])]
  simp only [List.map_cons, List.map_nil, Field.fixed, hmethod.required (reads_index h.method),
    hindex.required (reads_index h.index)]
  rfl

end SiteId

namespace CallEdge

/-- The indices have 64 bits. -/
structure InRange (e : CallEdge) : Prop where
  site : e.site.InRange
  callee : e.callee < 0x10000000000000000

theorem plain_toJson (e : CallEdge) : e.toJson.Plain := by
  refine .object ?_
  simp only [List.forall_mem_cons]
  exact ⟨e.site.plain_toJson, plain_nat _, nofun⟩

/-- An edge is read back, if the numbers in it are in range. -/
theorem reads_ofJson? {e : CallEdge} (h : e.InRange) : Reads ofJson? e.toJson e := by
  refine ⟨nofun, fun w hw => ?_⟩
  obtain ⟨ns, hrecord, hfound, -⟩ := hw.record? (by simp)
  simp only [List.forall_mem_cons] at hfound
  obtain ⟨hsite, hcallee, -⟩ := hfound
  rw [ofJson?, hrecord _ (by simp [Field.fixed])]
  simp only [List.map_cons, List.map_nil, Field.fixed,
    hsite.required (SiteId.reads_ofJson? h.site), hcallee.required (reads_index h.callee)]
  rfl

end CallEdge

namespace CallGraph

/-- The indices and the number of edges have 64 bits. -/
structure InRange (g : CallGraph) : Prop where
  incoming : ∀ edges ∈ g.incoming, ∀ e ∈ edges, e.InRange
  edgeCount : g.edgeCount < 0x10000000000000000

theorem plain_toJson (g : CallGraph) : g.toJson.Plain := by
  refine .object ?_
  simp only [List.forall_mem_cons]
  exact ⟨plain_list (fun edges => plain_list CallEdge.plain_toJson edges) _, plain_nat _, nofun⟩

/-- A call graph is read back, if the numbers in it are in range. -/
theorem reads_ofJson? {g : CallGraph} (h : g.InRange) : Reads ofJson? g.toJson g := by
  refine ⟨nofun, fun w hw => ?_⟩
  obtain ⟨ns, hrecord, hfound, -⟩ := hw.record? (by simp)
  simp only [List.forall_mem_cons] at hfound
  obtain ⟨hincoming, hedgeCount, -⟩ := hfound
  have hlists : Reads (list? (list? CallEdge.ofJson?))
      (.list (g.incoming.map fun edges => .list (edges.map CallEdge.toJson))) g.incoming :=
    .list fun edges hedges => .list fun e he =>
      CallEdge.reads_ofJson? (h.incoming edges hedges e he)
  rw [ofJson?, hrecord _ (by simp [Field.fixed])]
  simp only [List.map_cons, List.map_nil, Field.fixed, hincoming.required hlists,
    hedgeCount.required (reads_index h.edgeCount)]
  rfl

end CallGraph

/-! ## Classes and methods -/

namespace ClassDef

/-- The indices have 64 bits. -/
def InRange (c : ClassDef) : Prop :=
  ∀ m ∈ c.methods, m < 0x10000000000000000

theorem plain_toJson (c : ClassDef) : c.toJson.Plain := by
  refine .object ?_
  simp only [List.forall_mem_cons]
  exact ⟨.text _, plain_ofText? _, plain_list plain_nat _, nofun⟩

/-- A class is read back, if the numbers in it are in range. -/
theorem reads_ofJson? {c : ClassDef} (h : c.InRange) : Reads ofJson? c.toJson c := by
  refine ⟨nofun, fun w hw => ?_⟩
  obtain ⟨ns, hrecord, hfound, -⟩ := hw.record? (by simp)
  simp only [List.forall_mem_cons] at hfound
  obtain ⟨hname, hfile, hmethods, -⟩ := hfound
  rw [ofText?_eq_orNull] at hfile
  rw [ofJson?, hrecord _ (by simp [Field.fixed])]
  simp only [List.map_cons, List.map_nil, Field.fixed, hname.required (reads_text _),
    hfile.optional fun s _ => reads_text s,
    hmethods.required (.list fun m hm => reads_index (h m hm))]
  rfl

end ClassDef

namespace Method

/-- The index has 64 bits and the call sites are in range. -/
structure InRange (m : Method) : Prop where
  id : m.id < 0x10000000000000000
  body : ∀ sites, m.body = some sites → ∀ s ∈ sites, s.InRange

/-- A method is written with null for a body that is not known. -/
theorem toJson_eq (m : Method) : m.toJson = .object [
    ("id", .nat m.id),
    ("qualified_name", .text m.qualifiedName),
    ("class_name", .text m.className),
    ("name", .text m.name),
    ("signature", .text m.signature),
    ("parameters", .texts m.parameters),
    ("is_concrete", .bool m.isConcrete),
    ("body", orNull (fun sites => .list (sites.map CallSite.toJson)) m.body)] := by
  obtain ⟨_, _, _, _, _, _, _, _ | _⟩ := m <;> rfl

/-- What is written for a method is plain, so that it can be read back. -/
theorem plain_toJson (m : Method) : m.toJson.Plain := by
  rw [toJson_eq]
  refine .object ?_
  simp only [List.forall_mem_cons]
  exact ⟨plain_nat _, .text _, .text _, .text _, .text _, plain_texts _, .bool _,
    plain_orNull (fun sites => plain_list CallSite.plain_toJson sites) _, nofun⟩

/-- A method is read back, if the numbers in it are in range. -/
theorem reads_ofJson? {m : Method} (h : m.InRange) : Reads ofJson? m.toJson m := by
  rw [toJson_eq]
  refine ⟨nofun, fun w hw => ?_⟩
  obtain ⟨ns, hrecord, hfound, -⟩ := hw.record? (by simp)
  simp only [List.forall_mem_cons] at hfound
  obtain ⟨hid, hqualified, hclass, hname, hsignature, hparameters, hconcrete, hbody, -⟩ := hfound
  have hsites : ∀ sites, m.body = some sites → Reads (list? CallSite.ofJson?)
      (.list (sites.map CallSite.toJson)) sites :=
    fun sites heq => .list fun s hs => CallSite.reads_ofJson? (h.body sites heq s hs)
  rw [ofJson?, hrecord _ (by simp [Field.fixed])]
  simp only [List.map_cons, List.map_nil, Field.fixed, hid.required (reads_index h.id),
    hqualified.required (reads_text _), hclass.required (reads_text _),
    hname.required (reads_text _), hsignature.required (reads_text _),
    hparameters.required (reads_texts _), hconcrete.required (reads_bool _),
    hbody.optional hsites]
  rfl

end Method

/-! ## Programs -/

namespace Program

/-- The indices and the number of edges have 64 bits and the line numbers have 32. -/
structure InRange (p : Program) : Prop where
  classes : ∀ c ∈ p.classes, c.InRange
  methods : ∀ m ∈ p.methods, m.InRange
  callGraph : p.callGraph.InRange

/-- Reads the text of a program. -/
def parse? (text : String) : Option Program :=
  (Json.parse? text).bind ofJson?

/-- What is written for a program is plain, so that it can be read back. -/
theorem plain_toJson (p : Program) : p.toJson.Plain := by
  refine .object ?_
  simp only [List.forall_mem_cons]
  exact ⟨.text _, plain_list ClassDef.plain_toJson _, plain_list Method.plain_toJson _,
    p.callGraph.plain_toJson, nofun⟩

/-- A program is read back, if the numbers in it are in range. -/
theorem reads_ofJson? {p : Program} (h : p.InRange) : Reads ofJson? p.toJson p := by
  refine ⟨nofun, fun w hw => ?_⟩
  obtain ⟨ns, hrecord, hfound, -⟩ := hw.record? (by simp)
  simp only [List.forall_mem_cons] at hfound
  obtain ⟨hname, hclasses, hmethods, hgraph, -⟩ := hfound
  rw [ofJson?, hrecord _ (by simp [Field.fixed])]
  simp only [List.map_cons, List.map_nil, Field.fixed, hname.required (reads_text _),
    hclasses.required (.list fun c hc => ClassDef.reads_ofJson? (h.classes c hc)),
    hmethods.required (.list fun m hm => Method.reads_ofJson? (h.methods m hm)),
    hgraph.required (CallGraph.reads_ofJson? h.callGraph)]
  rfl

theorem parse?_of_parse {p : Program} (h : p.InRange) {text : String}
    (htext : Json.parse? text = some p.toJson) : parse? text = some p := by
  rw [parse?, htext, Option.bind_some]
  exact (reads_ofJson? h).read_eq _ p.plain_toJson.omits_refl

theorem parse?_toCompact {p : Program} (h : p.InRange) : parse? p.toJson.toCompact = some p :=
  parse?_of_parse h p.plain_toJson.parse?_toCompact

theorem parse?_toPretty {p : Program} (h : p.InRange) : parse? p.toJson.toPretty = some p :=
  parse?_of_parse h p.plain_toJson.parse?_toPretty

end Program

end CryptoAudit
