import Mathlib.Data.List.Forall2
import CryptoAudit.Proofs.Json.Record
import CryptoAudit.Proofs.Text.Bytes
import CryptoAudit.Report.Sarif

/-!
# References in reports for code hosts

A report for code hosts refers from each result to a rule of its table. Results are made from the
findings one by one, and the table apart from them, from a map that keeps the first finding of each
rule (`getElem?_firstByRule`). They fit together whatever the findings are
(`Sarif.render_consistent`): every rule that a result refers to is in the table once, and no others
are. What is said here is said of the text of the report, as a JSON reader sees it.
-/

namespace CryptoAudit

/-- What stands in an object under a name, in the object there under the next name, and so on. -/
def Json.at? : Json → List String → Option Json
  | v, [] => some v
  | .object members, name :: names => (members.lookup name).bind (·.at? names)
  | _, _ :: _ => none

namespace Report.Sarif

open Json

/-! ## The text is that of a JSON value -/

theorem plain_textObject (s : String) : (textObject s).Plain := .tag "text" (.text s)

/-- The entry of a rule is plain, so that it can be read back. -/
theorem plain_descriptor (f : Finding) : (descriptor f).Plain := by
  refine .object ?_
  simp only [List.forall_mem_cons]
  exact ⟨.tag "level" (.text _), plain_textObject _, .text _, .text _, plain_textObject _,
    List.forall_mem_nil _⟩

theorem plain_location (f : Finding) (l : SourceLocation) : (location f l).Plain := by
  refine .tag "physicalLocation" (.object ?_)
  simp only [List.forall_mem_cons]
  exact ⟨.tag "uri" (.text _), .tag "startLine" (plain_nat _), List.forall_mem_nil _⟩

/-- The result on a finding is plain, so that it can be read back. -/
theorem plain_result (f : Finding) : (result f).Plain := by
  have hlocations : ∀ m ∈ (f.location.map fun l => ("locations", Json.list [location f l])).toList,
      Plain m.2 := by
    cases f.location with
    | none => exact List.forall_mem_nil _
    | some l =>
      have hlist : Plain (.list [location f l]) :=
        .list (List.forall_mem_singleton.2 (plain_location f l))
      exact List.forall_mem_singleton.2 hlist
  refine .object ?_
  simp only [List.forall_mem_append, List.forall_mem_cons]
  refine ⟨⟨⟨.text _, List.forall_mem_nil _⟩, hlocations⟩, plain_textObject _, .object ?_, .text _,
    List.forall_mem_nil _⟩
  simp only [List.forall_mem_cons]
  exact ⟨.text _, .text _, .text _, .text _, .text _, .text _, plain_texts _,
    List.forall_mem_nil _⟩

theorem plain_ruleTable (fs : List Finding) : Plain (.list (ruleTable fs)) :=
  .list (List.forall_mem_map.2 fun entry _ => plain_descriptor entry.2)

/-- A report is plain, so that it can be read back. -/
theorem plain_toJson (r : Report) (stamp : Stamp) : (toJson r stamp).Plain := by
  have hdetails : Plain (.object [("guid", .text stamp.guid),
      ("id", .text (toolName ++ "/" ++ r.target))]) :=
    .object (List.forall_mem_cons.2 ⟨.text _, List.forall_mem_singleton.2 (.text _)⟩)
  have hdriver : Plain (.object [("name", .text toolName), ("rules", .list (ruleTable r.findings)),
      ("semanticVersion", .text toolVersion), ("version", .text toolVersion)]) := by
    refine .object ?_
    simp only [List.forall_mem_cons]
    exact ⟨.text _, plain_ruleTable _, .text _, .text _, List.forall_mem_nil _⟩
  refine .object ?_
  simp only [List.forall_mem_cons]
  refine ⟨.text _, .list (List.forall_mem_singleton.2 (.object ?_)), .text _,
    List.forall_mem_nil _⟩
  simp only [List.forall_mem_cons]
  exact ⟨hdetails, .tag "fingerprint" (.text _), plain_list plain_result _, .tag "driver" hdriver,
    List.forall_mem_nil _⟩

/-! ## Results -/

/-- The result refers to the rule of the finding and to its location, if there is one: to the file
of the location, or else to the class with slashes for dots. -/
structure IsResultOf (v : Json) (f : Finding) : Prop where
  ruleId : v.at? ["ruleId"] = some (.text f.ruleId)
  unlocated : v.at? ["locations"] = none ↔ f.location = none
  located : ∀ l, f.location = some l → ∃ place uri,
    v.at? ["locations"] = some (.list [place]) ∧
    place.at? ["physicalLocation", "artifactLocation", "uri"] = some (.text uri) ∧
    (l.file = some uri ∨
      l.file = none ∧ uri.toList = f.className.toList.map fun c => if c = '.' then '/' else c)

/-- The result on a finding says of it what it should. -/
theorem isResultOf_result (f : Finding) : IsResultOf (result f) f where
  ruleId := by
    rw [result]
    cases f.location <;> rfl
  unlocated := by
    rw [result]
    cases f.location with
    | none => exact ⟨fun _ => rfl, fun _ => rfl⟩
    | some l => exact ⟨nofun, nofun⟩
  located := by
    intro l hl
    refine ⟨location f l, artifactUri f l, ?_, rfl, ?_⟩
    · rw [result, hl]
      rfl
    · rw [artifactUri]
      cases l.file with
      | none => exact .inr ⟨rfl, String.toList_ofList⟩
      | some file => exact .inl rfl

/-! ## The first finding of each rule -/

/-- The finding is the first of its rule. -/
def IsFirst (fs : List Finding) (f : Finding) : Prop :=
  ∃ before after, fs = before ++ f :: after ∧ ∀ g ∈ before, g.ruleId ≠ f.ruleId

/-- The entry of the table describes the rule by the finding. -/
structure Describes (v : Json) (f : Finding) : Prop where
  id : v.at? ["id"] = some (.text f.ruleId)
  name : v.at? ["name"] = some (.text f.category)
  short : v.at? ["shortDescription", "text"] = some (.text f.api)
  full : v.at? ["fullDescription", "text"] = some (.text f.description)
  level : v.at? ["defaultConfiguration", "level"] = some (.text (severityLevel f.severity))

theorem describes_descriptor (f : Finding) : Describes (descriptor f) f :=
  ⟨rfl, rfl, rfl, rfl, rfl⟩

/-- A finding is added for its rule, unless there is one already. -/
theorem getElem?_insertIfNew (m : Std.ExtTreeMap String Finding) (f : Finding) (id : String) :
    (m.insertIfNew f.ruleId f)[id]? = m[id]?.or (if f.ruleId == id then some f else none) := by
  rw [Std.ExtTreeMap.getElem?_insertIfNew]
  by_cases hid : f.ruleId = id
  · subst hid
    by_cases hmem : f.ruleId ∈ m
    · simp [hmem]
    · simp [hmem]
  · simp [hid]

/-- Under a rule stands what stood there before, or else its first finding. -/
theorem getElem?_foldl_insertIfNew (fs : List Finding) (m : Std.ExtTreeMap String Finding)
    (id : String) :
    (fs.foldl (fun m f => m.insertIfNew f.ruleId f) m)[id]? =
      m[id]?.or (fs.find? (·.ruleId == id)) := by
  induction fs generalizing m with
  | nil => simp
  | cons f fs ih =>
    rw [List.foldl_cons, ih, getElem?_insertIfNew, Option.or_assoc, List.find?_cons]
    cases f.ruleId == id <;> rfl

theorem getElem?_firstByRule (fs : List Finding) (id : String) :
    (firstByRule fs)[id]? = fs.find? (·.ruleId == id) := by
  rw [firstByRule, getElem?_foldl_insertIfNew]
  simp

/-- The map holds under a rule the first finding of that rule. -/
theorem mem_firstByRule {fs : List Finding} {id : String} {f : Finding} :
    (id, f) ∈ (firstByRule fs).toList ↔ f.ruleId = id ∧ IsFirst fs f := by
  rw [Std.ExtTreeMap.mem_toList_iff_getElem?_eq_some, getElem?_firstByRule,
    List.find?_eq_some_iff_append, beq_iff_eq]
  refine and_congr_right fun hid => ?_
  subst hid
  simp [IsFirst]

/-- The identifiers in the table of rules. -/
def ruleIds (fs : List Finding) : List String := (firstByRule fs).toList.map (·.1)

/-- The rules of a report are those of its findings. -/
theorem mem_ruleIds {fs : List Finding} {id : String} :
    id ∈ ruleIds fs ↔ id ∈ fs.map (·.ruleId) := by
  simp only [ruleIds, List.mem_map, Prod.exists, exists_eq_right, exists_and_right,
    Std.ExtTreeMap.mem_toList_iff_getElem?_eq_some, getElem?_firstByRule,
    ← Option.isSome_iff_exists, List.find?_isSome, beq_iff_eq]

theorem pairwise_ruleIds (fs : List Finding) : (ruleIds fs).Pairwise Text.ByteLt := by
  rw [ruleIds, List.pairwise_map]
  refine Std.ExtTreeMap.ordered_keys_toList.imp fun hlt => ?_
  exact Text.byteLt_of_lt (compare_lt_iff_lt.1 hlt)

theorem nodup_ruleIds (fs : List Finding) : (ruleIds fs).Nodup := by
  refine (pairwise_ruleIds fs).imp fun hlt heq => ?_
  exact lt_irrefl _ (Text.byteLt_iff.1 (heq ▸ hlt))

/-- The entries of the table of rules are named by the rules of the findings. -/
theorem map_id_ruleTable (fs : List Finding) :
    (ruleTable fs).map (·.at? ["id"]) = (ruleIds fs).map fun id => some (.text id) := by
  rw [ruleTable, ruleIds, List.map_map, List.map_map]
  refine List.map_congr_left fun entry hentry => ?_
  obtain ⟨hid, -⟩ := mem_firstByRule.1 hentry
  change (descriptor entry.2).at? ["id"] = some (.text entry.1)
  rw [(describes_descriptor entry.2).id, hid]

theorem exists_isFirst_of_mem_ruleTable {fs : List Finding} {rule : Json}
    (h : rule ∈ ruleTable fs) : ∃ f, IsFirst fs f ∧ Describes rule f := by
  obtain ⟨entry, hentry, rfl⟩ := List.mem_map.1 h
  exact ⟨entry.2, (mem_firstByRule.1 hentry).2, describes_descriptor entry.2⟩

theorem mem_map_ruleId_result {fs : List Finding} {id : String} :
    some (.text id) ∈ (fs.map result).map (·.at? ["ruleId"]) ↔ id ∈ fs.map (·.ruleId) := by
  simp [(isResultOf_result _).ruleId]

/-- The text of a report is a JSON value whose references fit. There is a result for each finding,
in order, which refers to the rule of the finding. The identifiers in the table of rules ascend by
their bytes, they are those that the results refer to, and each rule is described by its first
finding. -/
theorem render_consistent (r : Report) (stamp : Stamp) :
    ∃ log run results rules,
      Json.parse? (render r stamp) = some log ∧
      log.at? ["runs"] = some (.list [run]) ∧
      run.at? ["results"] = some (.list results) ∧
      run.at? ["tool", "driver", "rules"] = some (.list rules) ∧
      List.Forall₂ IsResultOf results r.findings ∧
      (∀ rule ∈ rules, ∃ f, IsFirst r.findings f ∧ Describes rule f) ∧
      ∃ ids : List String,
        rules.map (·.at? ["id"]) = ids.map (fun id => some (.text id)) ∧
        ids.Pairwise Text.ByteLt ∧ ids.Nodup ∧
        ∀ id, id ∈ ids ↔ some (.text id) ∈ results.map (·.at? ["ruleId"]) := by
  refine ⟨_, _, _, _, (plain_toJson r stamp).parse?_toPretty, rfl, rfl, rfl, ?_, ?_, ?_⟩
  · exact List.forall₂_map_left_iff.2 (List.forall₂_same.2 fun f _ => isResultOf_result f)
  · exact fun rule => exists_isFirst_of_mem_ruleTable
  · refine ⟨ruleIds r.findings, map_id_ruleTable _, pairwise_ruleIds _, nodup_ruleIds _, ?_⟩
    exact fun id => mem_ruleIds.trans mem_map_ruleId_result.symm

end Report.Sarif

end CryptoAudit
