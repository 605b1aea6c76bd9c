import Mathlib.Data.List.Basic
import CryptoAudit.Proofs.Finding.Policy
import CryptoAudit.Report.Console

/-!
# The lines of console reports

A console report is a text of lines: those above the findings with their number, those of one block
for each finding (`Console.blockLines`), and those with the result. What the lines of a block say is
stated here of the fields of the finding, line by line, whereas `Console.block` puts its text
together from parts that hold the ends of lines; the texts are equal (`Console.block_eq_unlines`).

The findings are sorted by severity, the highest first, by a sort that keeps the order of findings
with equal severity. So they stand in groups, one for each severity from the highest to the lowest,
and within a group in the order of the scan (`Console.sorted_eq_flatMap_group`).

Two facts determine the sorted list. It descends, so the findings with the highest severity come
first and the others follow in their order (`Console.filter_append_filter_of_descends`). And the
findings of one severity form a list that descends already, of which the sort keeps the order
(`Console.group_sorted`).
-/

namespace CryptoAudit.Report.Console

/-- The findings of one severity, in the given order. -/
def group (fs : List Finding) (s : Severity) : List Finding := fs.filter (·.severity = s)

/-- No finding is less severe than one after it. -/
def Descends (fs : List Finding) : Prop := fs.Pairwise fun f g => g.severity ≤ f.severity

theorem mem_group {fs : List Finding} {s : Severity} {f : Finding} :
    f ∈ group fs s ↔ f ∈ fs ∧ f.severity = s := by
  rw [group, List.mem_filter, decide_eq_true_eq]

theorem descends_group (fs : List Finding) (s : Severity) : Descends (group fs s) := by
  refine List.pairwise_of_forall_mem_list fun f hf g hg => ?_
  rw [(mem_group.1 hf).2, (mem_group.1 hg).2]
  exact Nat.le_refl _

/-! ## The sort -/

/-- Being at most as severe is transitive, in the form in which the sort asks for it. -/
theorem le_trans_severity (f g h : Finding) (hfg : decide (g.severity ≤ f.severity) = true)
    (hgh : decide (h.severity ≤ g.severity) = true) :
    decide (h.severity ≤ f.severity) = true := by
  rw [decide_eq_true_eq] at hfg hgh ⊢
  exact Std.le_trans hgh hfg

theorem le_total_severity (f g : Finding) :
    (decide (g.severity ≤ f.severity) || decide (f.severity ≤ g.severity)) = true := by
  rw [Bool.or_eq_true, decide_eq_true_eq, decide_eq_true_eq]
  exact Std.le_total

theorem sorted_perm (fs : List Finding) : (sorted fs).Perm fs := List.mergeSort_perm ..

theorem descends_sorted (fs : List Finding) : Descends (sorted fs) :=
  (List.pairwise_mergeSort le_trans_severity le_total_severity fs).imp of_decide_eq_true

/-- The sort keeps the findings of one severity and their order. -/
theorem group_sorted (fs : List Finding) (s : Severity) : group (sorted fs) s = group fs s := by
  have hsorted : (group fs s).Sublist (sorted fs) :=
    List.sublist_mergeSort le_trans_severity le_total_severity
      ((descends_group fs s).imp decide_eq_true) List.filter_sublist
  have hgroup : (group fs s).Sublist (group (sorted fs) s) := by
    have h := hsorted.filter (·.severity = s)
    simpa only [group, List.filter_filter, Bool.and_self] using h
  exact (hgroup.eq_of_length ((sorted_perm fs).filter _).length_eq.symm).symm

/-! ## Lists that descend -/

/-- In a list that descends, the findings of the highest severity come first. -/
theorem filter_append_filter_of_descends {fs : List Finding} {s : Severity} (h : Descends fs)
    (hs : ∀ f ∈ fs, f.severity ≤ s) :
    group fs s ++ fs.filter (·.severity ≠ s) = fs := by
  induction fs with
  | nil => rfl
  | cons f fs ih =>
    obtain ⟨hhead, htail⟩ := List.pairwise_cons.1 h
    obtain ⟨hf, hs⟩ := List.forall_mem_cons.1 hs
    by_cases heq : f.severity = s
    · have hgroup : group (f :: fs) s = f :: group fs s := by simp [group, heq]
      have hothers : (f :: fs).filter (·.severity ≠ s) = fs.filter (·.severity ≠ s) := by
        simp [heq]
      rw [hgroup, hothers, List.cons_append, ih htail hs]
    · -- What follows is not more severe than `f`, hence less severe than `s`.
      have hall : ∀ g ∈ f :: fs, g.severity ≠ s := by
        refine List.forall_mem_cons.2 ⟨heq, fun g hg hgs => heq ?_⟩
        exact Std.le_antisymm hf (hgs ▸ hhead g hg)
      have hgroup : group (f :: fs) s = [] := by simpa [group] using hall
      have hothers : (f :: fs).filter (·.severity ≠ s) = f :: fs := by simpa using hall
      rw [hgroup, hothers, List.nil_append]

/-- A list that descends is made of its groups, from the highest severity to the lowest. -/
theorem flatMap_group_of_descends {fs : List Finding} {ss : List Severity} (h : Descends fs)
    (hss : ss.Pairwise fun s t => t ≤ s ∧ t ≠ s) (hmem : ∀ f ∈ fs, f.severity ∈ ss) :
    ss.flatMap (group fs) = fs := by
  induction ss generalizing fs with
  | nil => exact (List.eq_nil_iff_forall_not_mem.2 fun f hf => List.not_mem_nil (hmem f hf)).symm
  | cons s ss ih =>
    obtain ⟨hhead, htail⟩ := List.pairwise_cons.1 hss
    have hothers : ∀ f ∈ fs.filter (·.severity ≠ s), f.severity ∈ ss := by
      intro f hf
      obtain ⟨hf, hne⟩ := List.mem_filter.1 hf
      exact (List.mem_cons.1 (hmem f hf)).resolve_left (of_decide_eq_true hne)
    have hgroups : ss.flatMap (group (fs.filter (·.severity ≠ s))) = ss.flatMap (group fs) := by
      refine List.flatMap_congr fun t ht => ?_
      rw [group, group, List.filter_filter]
      refine List.filter_congr fun f _ => ?_
      have hne := (hhead t ht).2
      grind
    have hhighest : ∀ f ∈ fs, f.severity ≤ s := by
      intro f hf
      rcases List.mem_cons.1 (hmem f hf) with heq | hmem
      · rw [heq]
        exact Nat.le_refl _
      · exact (hhead _ hmem).1
    rw [List.flatMap_cons, ← hgroups, ih (h.filter _) htail hothers,
      filter_append_filter_of_descends h hhighest]

/-- The sorted findings are made of the groups, from the highest severity to the lowest. -/
theorem sorted_eq_flatMap_group (fs : List Finding) :
    sorted fs = Severity.descending.flatMap (group fs) := by
  have hall : ∀ s : Severity, s ∈ Severity.descending := by
    intro s
    cases s <;> decide
  rw [← flatMap_group_of_descends (descends_sorted fs) (by decide) fun f _ => hall f.severity]
  exact List.flatMap_congr fun s _ => group_sorted fs s

/-! ## The text of a block -/

/-- The text of lines, each of which is ended. -/
def unlines (lines : List String) : String := String.join (lines.map (· ++ "\n"))

/-- The mark of a severity: its name in capitals and in brackets, with blanks up to ten
characters. -/
def mark (s : Severity) : String :=
  let capitals := s.name.toList.map Char.toUpper
  String.ofList ('[' :: capitals ++ [']'] ++ List.replicate (8 - capitals.length) ' ')

/-- What is said about the compliance of a finding: a provider that is not validated and a weak
algorithm are worse than something that is not known. -/
def compliance (f : Finding) : String :=
  if f.verdict = .notValidated ∨ f.flagged = true then "NON-COMPLIANT"
  else if f.provenance = .unresolved ∨ f.verdict = .unresolved then "REVIEW"
  else "ok"

/-- The algorithm of a finding and how it is known. -/
def algorithmText (f : Finding) : String :=
  match f.provenance with
  | .directConstant => f.algorithm ++ " (direct constant)"
  | .tracedRecursively => f.algorithm ++ " (traced recursively)"
  | .unresolved => "<unresolved> (unresolved)"

/-- The verdict on a provider, if one is asked for. -/
def verdictText? : ProviderVerdict → Option String
  | .validated => some "FIPS"
  | .notValidated => some "Non-FIPS"
  | .unresolved => some "unresolved"
  | .notApplicable => none

/-- The lines of the block of a finding. The line on the provider is left out where none is asked
for, and a block ends with an empty line. -/
def blockLines (f : Finding) : List String :=
  ["  " ++ mark f.severity ++ " " ++ f.category ++ " " ++ f.api ++ " (" ++ compliance f ++ ")",
    "           at " ++ f.className ++ ": " ++ f.methodSignature ++ " line " ++
      (f.location.map fun l => toString l.line).getD "?",
    "           algorithm: " ++ algorithmText f ++
      (if f.trace = [] then "" else " via " ++ " -> ".intercalate f.trace) ++
      (if f.flagged = true then " [weak]" else "")] ++
  (verdictText? f.verdict).toList.map
    (fun words => "           provider:  " ++ f.provider ++ " [" ++ words ++ "]") ++
  [""]

/-- The lines above the findings, with their number. -/
def headerLines (count : Nat) : List String :=
  ["", "  " ++ toString count ++ " finding(s) detected:", ""]

/-- The lines with the result. -/
def resultLines (v : PolicyVerdict) : List String :=
  ["  Result: " ++ (if v.pass = true then "PASS" else "FAIL") ++ " (" ++
      toString v.nonCompliantFindings ++ " non-compliant, threshold: " ++ v.failThreshold.name ++
      ", highest: " ++ (v.highestSeverity.map Severity.name).getD "none" ++ ")",
    ""]

theorem unlines_append (ls ms : List String) : unlines (ls ++ ms) = unlines ls ++ unlines ms := by
  rw [unlines, List.map_append, String.join_append]
  rfl

/-- The text of lines is that of their parts, one after the other. -/
theorem unlines_flatMap {α : Type} (f : α → List String) (as : List α) :
    unlines (as.flatMap f) = String.join (as.map fun a => unlines (f a)) := by
  induction as with
  | nil => rfl
  | cons a as ih => rw [List.flatMap_cons, unlines_append, ih, List.map_cons, String.join_cons]

theorem severityTag_eq_mark (s : Severity) : severityTag s = mark s := by
  cases s <;> decide +kernel

theorem status_eq_compliance (f : Finding) : status f = compliance f := by
  simp [status, compliance, Finding.isNonCompliant, Finding.hasUnresolved]

/-- The first line of a block. -/
theorem headLine_eq (f : Finding) :
    headLine f = "  " ++ mark f.severity ++ " " ++ f.category ++ " " ++ f.api ++
      " (" ++ compliance f ++ ")" ++ "\n" := by
  simp [headLine, severityTag_eq_mark, status_eq_compliance, String.append_assoc]

/-- The second line of a block. -/
theorem placeLine_eq (f : Finding) :
    placeLine f = "           at " ++ f.className ++ ": " ++ f.methodSignature ++ " line " ++
      (f.location.map fun l => toString l.line).getD "?" ++ "\n" := by
  have hline : f.lineLabel = (f.location.map fun l => toString l.line).getD "?" := by
    unfold Finding.lineLabel Finding.line
    cases f.location with
    | none => rfl
    | some l => rfl
  exact congrArg ("           at " ++ f.className ++ ": " ++ f.methodSignature ++ " line " ++ · ++
    "\n") hline

/-- The third line of a block. -/
theorem algorithmLine_eq (f : Finding) :
    algorithmLine f = "           algorithm: " ++ algorithmText f ++
      (if f.trace = [] then "" else " via " ++ " -> ".intercalate f.trace) ++
      (if f.flagged = true then " [weak]" else "") ++ "\n" := by
  have halgorithm : "           algorithm: " ++ f.algorithmLabel ++ " (" ++
      f.provenance.label ++ ")" = "           algorithm: " ++ algorithmText f := by
    unfold Finding.algorithmLabel algorithmText
    cases f.provenance <;> simp [Provenance.label, String.append_assoc]
  have hvia : (if f.trace.isEmpty then "" else " via " ++ " -> ".intercalate f.trace) =
      if f.trace = [] then "" else " via " ++ " -> ".intercalate f.trace := by
    simp only [List.isEmpty_iff]
  exact congrArg₂ (· ++ · ++ (if f.flagged = true then " [weak]" else "") ++ "\n") halgorithm hvia

/-- The line on the provider, if there is one. -/
theorem providerLine_eq (f : Finding) :
    providerLine f = unlines ((verdictText? f.verdict).toList.map
      fun words => "           provider:  " ++ f.provider ++ " [" ++ words ++ "]") := by
  unfold providerLine
  cases f.verdict <;> simp [verdictText?, unlines, ProviderVerdict.label, String.append_assoc]

/-- The text of a block is that of its lines. -/
theorem block_eq_unlines (f : Finding) : block f = unlines (blockLines f) := by
  simp only [block, blockLines, unlines_append, ← providerLine_eq, headLine_eq, placeLine_eq,
    algorithmLine_eq]
  simp [unlines, String.append_assoc]

/-- The text above the findings is that of its lines. -/
theorem header_eq_unlines (count : Nat) : header count = unlines (headerLines count) := by
  have hlead : "\n" ++ "  " = "\n  " := by simp
  have hassoc : ∀ a b c d : String, a ++ b ++ c ++ d = a ++ (b ++ (c ++ d)) := by
    simp [String.append_assoc]
  calc header count
    _ = "\n" ++ "  " ++ toString count ++ " finding(s) detected:\n\n" :=
      congrArg (· ++ toString count ++ " finding(s) detected:\n\n") hlead.symm
    _ = "\n" ++ ("  " ++ (toString count ++ " finding(s) detected:\n\n")) := hassoc ..
    _ = unlines (headerLines count) := by simp [unlines, headerLines, String.append_assoc]

/-- The text below the findings is that of its lines. -/
theorem resultLine_eq_unlines (v : PolicyVerdict) :
    resultLine v = unlines (resultLines v) := by
  unfold resultLine resultLines
  cases v.highestSeverity <;> simp [unlines, String.append_assoc]

/-! ## The report -/

/-- **A report shows every finding, by severity.** A report on some findings has the lines with
their number, the lines of one block for each of them, and the lines with the result. The blocks
are those of all critical findings, then those of all high, medium, low and info ones, each group
in the order of the scan: no finding is left out or repeated, and those of one severity keep their
order. -/
theorem render_groups_by_severity (r : Report) (h : r.findings ≠ []) :
    ∃ shown : List Finding,
      render r = unlines (headerLines r.findings.length ++ shown.flatMap blockLines ++
        resultLines r.verdict) ∧
      shown = group r.findings .critical ++ (group r.findings .high ++
        (group r.findings .medium ++ (group r.findings .low ++ group r.findings .info))) ∧
      shown.Perm r.findings ∧ ∀ s, group shown s = group r.findings s := by
  refine ⟨sorted r.findings, ?_, ?_, sorted_perm _, group_sorted _⟩
  · have hsome : r.findings.isEmpty = false := by simpa using h
    have hblocks : String.join ((sorted r.findings).map block) =
        unlines ((sorted r.findings).flatMap blockLines) := by
      rw [unlines_flatMap]
      exact congrArg String.join (List.map_congr_left fun f _ => block_eq_unlines f)
    rw [render, hsome, if_neg Bool.false_ne_true, header_eq_unlines, hblocks, resultLine_eq_unlines,
      unlines_append, unlines_append]
  · rw [sorted_eq_flatMap_group]
    simp [Severity.descending]

/-- A finding about a digest. -/
def digest (algorithm : String) (severity : Severity) : Finding where
  ruleId := "FIPS-001"
  category := "MessageDigest"
  api := "java.security.MessageDigest.getInstance"
  severity
  description := "digest"
  className := "app.Main"
  methodSignature := "void main()"
  algorithm
  provenance := .directConstant
  trace := []
  flagged := true
  location := none
  provider := ""
  verdict := .notApplicable

/-- A report on findings of three severities, one of them repeated. -/
def mixed : Report where
  target := "app"
  findings := [
    { digest "" .low with
      provenance := .unresolved, flagged := false, location := some ⟨none, 12⟩ },
    digest "MD5" .high,
    { digest "SHA-256" .critical with
      flagged := false, provider := "BC", verdict := .notValidated },
    { digest "MD4" .high with
      provenance := .tracedRecursively, trace := ["Main.main", "Main.hash"] },
    digest "MD5" .high,
    { digest "SHA-512" .low with
      flagged := false, provider := "BCFIPS", verdict := .validated }]
  verdict := ⟨false, 6, 6, 4, some .critical, .high⟩
  fingerprint := ""

/-- The report on the mixed findings, line by line. -/
theorem render_groups_by_severity_mixed :
    mixed.findings ≠ [] ∧ render mixed = unlines [
      "",
      "  6 finding(s) detected:",
      "",
      "  [CRITICAL] MessageDigest java.security.MessageDigest.getInstance (NON-COMPLIANT)",
      "           at app.Main: void main() line ?",
      "           algorithm: SHA-256 (direct constant)",
      "           provider:  BC [Non-FIPS]",
      "",
      "  [HIGH]     MessageDigest java.security.MessageDigest.getInstance (NON-COMPLIANT)",
      "           at app.Main: void main() line ?",
      "           algorithm: MD5 (direct constant) [weak]",
      "",
      "  [HIGH]     MessageDigest java.security.MessageDigest.getInstance (NON-COMPLIANT)",
      "           at app.Main: void main() line ?",
      "           algorithm: MD4 (traced recursively) via Main.main -> Main.hash [weak]",
      "",
      "  [HIGH]     MessageDigest java.security.MessageDigest.getInstance (NON-COMPLIANT)",
      "           at app.Main: void main() line ?",
      "           algorithm: MD5 (direct constant) [weak]",
      "",
      "  [LOW]      MessageDigest java.security.MessageDigest.getInstance (REVIEW)",
      "           at app.Main: void main() line 12",
      "           algorithm: <unresolved> (unresolved)",
      "",
      "  [LOW]      MessageDigest java.security.MessageDigest.getInstance (ok)",
      "           at app.Main: void main() line ?",
      "           algorithm: SHA-512 (direct constant)",
      "           provider:  BCFIPS [FIPS]",
      "",
      "  Result: FAIL (4 non-compliant, threshold: high, highest: critical)",
      ""] := by
  have hne : mixed.findings ≠ [] := List.cons_ne_nil _ _
  obtain ⟨shown, htext, rfl, -⟩ := render_groups_by_severity mixed hne
  exact ⟨hne, htext.trans (congrArg unlines (by decide +kernel))⟩

end CryptoAudit.Report.Console
