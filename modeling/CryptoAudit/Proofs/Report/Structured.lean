import CryptoAudit.Proofs.Finding.Encoding
import CryptoAudit.Report.Structured

/-!
# Reports for machines can be read back

The text of a report for machines is that of one plain JSON object, so that it is read back as this
object. From its members the target, the fingerprint, the findings and the verdict are read as they
were given to the report (`Structured.render_decodes`), whatever characters their texts have. Line
numbers have 32 bits and counts have 64, as the readers of findings and verdicts demand.
-/

namespace CryptoAudit

open Document Json

namespace PolicyVerdict

/-- The counts of the verdict have 64 bits. -/
structure InRange (v : PolicyVerdict) : Prop where
  total : v.totalFindings < 0x10000000000000000
  effective : v.effectiveFindings < 0x10000000000000000
  nonCompliant : v.nonCompliantFindings < 0x10000000000000000

theorem highestSeverity_eq_orNull (s : Option Severity) :
    Json.ofText? (s.map Severity.name) = orNull (fun s => .text (Severity.name s)) s := by
  cases s <;> rfl

/-- What is written for a verdict is plain, so that it can be read back. -/
theorem plain_toJson (v : PolicyVerdict) : v.toJson.Plain := by
  refine .object ?_
  simp only [List.forall_mem_cons]
  exact ⟨.bool _, plain_nat _, plain_nat _, plain_nat _, plain_ofText? _, .text _,
    List.forall_mem_nil _⟩

/-- A verdict is read back, if the numbers in it are in range. -/
theorem reads_ofJson? {v : PolicyVerdict} (h : v.InRange) : Reads ofJson? v.toJson v := by
  refine ⟨nofun, fun w hw => ?_⟩
  obtain ⟨ns, hrecord, hfound, -⟩ := hw.record? (by simp)
  simp only [List.forall_mem_cons, highestSeverity_eq_orNull] at hfound
  obtain ⟨hpass, htotal, heffective, hnonCompliant, hhighest, hthreshold, -⟩ := hfound
  rw [ofJson?, hrecord _ (by simp [Field.fixed])]
  simp only [List.map_cons, List.map_nil, Field.fixed,
    hpass.required (reads_bool _), htotal.required (reads_index h.total),
    heffective.required (reads_index h.effective),
    hnonCompliant.required (reads_index h.nonCompliant),
    hhighest.optional fun s _ => Severity.reads_read? s,
    hthreshold.required (Severity.reads_read? _)]
  rfl

end PolicyVerdict

namespace Report.Structured

/-- A report is plain, so that it can be read back. -/
theorem plain_toJson (r : Report) (stamp : Stamp) : (toJson r stamp).Plain := by
  refine .object ?_
  simp only [List.forall_mem_cons]
  exact ⟨.text _, .text _, .text _, Finding.plain_findings _, r.verdict.plain_toJson,
    List.forall_mem_nil _⟩

/-- The text of a report is one JSON object with five members. Read from them, the target, the
fingerprint, the findings and the verdict are those of the report. -/
theorem render_decodes (r : Report) (stamp : Stamp) (hfindings : ∀ f ∈ r.findings, f.InRange)
    (hverdict : r.verdict.InRange) :
    ∃ members : List (String × Json),
      Json.parse? (render r stamp) = some (.object members) ∧
      members.map (·.1) = ["target", "generated_at", "fingerprint", "findings", "verdict"] ∧
      (members.lookup "target").bind text? = some r.target ∧
      (members.lookup "fingerprint").bind text? = some r.fingerprint ∧
      (members.lookup "findings").bind (list? Finding.ofJson?) = some r.findings ∧
      (members.lookup "verdict").bind PolicyVerdict.ofJson? = some r.verdict := by
  refine ⟨_, (plain_toJson r stamp).parse?_toPretty, rfl, rfl, rfl, ?_, ?_⟩
  · have hreads :
        Reads (list? Finding.ofJson?) (.list (r.findings.map Finding.toJson)) r.findings :=
      .list fun f hf => Finding.reads_ofJson? (hfindings f hf)
    exact hreads.read_eq _ (Finding.plain_findings _).omits_refl
  · exact (PolicyVerdict.reads_ofJson? hverdict).read_eq _ r.verdict.plain_toJson.omits_refl

/-- A report whose texts look like parts of a report. -/
def disguised : Report where
  target := "\",\n  \"verdict\": \x7b\x7d"
  findings := [.traced ["a\",\"b"] none, .traced [] (some ⟨some "é/\\.java", 4294967295⟩)]
  verdict := ⟨false, 18446744073709551615, 2, 2, none, .high⟩
  fingerprint := "\\u0000\x00😀"

/-- A report whose texts look like parts of a report is read back as well. -/
theorem render_decodes_disguised :
    (∀ f ∈ disguised.findings, f.InRange) ∧ disguised.verdict.InRange ∧
    ∃ members : List (String × Json),
      Json.parse? (render disguised ⟨"now", "id"⟩) = some (.object members) ∧
      (members.lookup "target").bind text? = some disguised.target ∧
      (members.lookup "findings").bind (list? Finding.ofJson?) = some disguised.findings ∧
      (members.lookup "verdict").bind PolicyVerdict.ofJson? = some disguised.verdict := by
  have hfindings : ∀ f ∈ disguised.findings, f.InRange := by
    simp [disguised, Finding.InRange, Finding.traced]
  have hverdict : disguised.verdict.InRange := ⟨by decide, by decide, by decide⟩
  obtain ⟨members, hparse, -, htarget, -, hreadFindings, hreadVerdict⟩ :=
    render_decodes disguised ⟨"now", "id"⟩ hfindings hverdict
  exact ⟨hfindings, hverdict, members, hparse, htarget, hreadFindings, hreadVerdict⟩

end Report.Structured

end CryptoAudit
