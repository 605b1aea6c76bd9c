import CryptoAudit.Command.Basic
import CryptoAudit.Proofs.Finding.Policy
import CryptoAudit.Proofs.Model.Loading
import CryptoAudit.Proofs.Scan.Soundness

/-!
# The code of an audit

An audit that can be carried out (`Ready`) ends with 1 if there is a `Breach` of the policy and with
0 if there is none (`perform_scan_code_iff`). A breach is a rule at a call site, described in terms
of the program, the rules and the settings alone: its category counts, its severity reaches the
threshold, and there is an `Objection` to what the call site passes.

The way from the code to the breach goes through the pieces of an audit: the code is that of the
verdict (`scan_code_iff`), the verdict fails because of a finding (`Policy.pass_eq_false_iff`),
findings are made at occurrences, and a finding is a violation if and only if there is an objection
(`isViolation_finding_iff`).
-/

namespace CryptoAudit

/-- A sequence of two computations succeeds if and only if both do. -/
theorem bind_eq_ok_iff {ε α β : Type} {x : Except ε α} {f : α → Except ε β} {b : β} :
    x >>= f = .ok b ↔ ∃ a, x = .ok a ∧ f a = .ok b := by
  cases x with
  | error e => exact ⟨nofun, nofun⟩
  | ok a =>
    refine ⟨fun h => ⟨a, rfl, h⟩, fun ⟨_, ha, h⟩ => ?_⟩
    cases ha
    exact h

namespace Command

open Scan Resolution

/-! ## Breaches of a policy -/

/-- What is wrong with a call site under a rule, where `strict` objects to what is not known. -/
inductive Objection (strict : Bool) (p : Program) (bound : DepthBound) (o : Occurrence) : Prop where
  /-- The provider is a literal that is not on the list. -/
  | provider {i : Nat} {name : String} (index : o.rule.providerIndex = some i)
      (argument : o.site.arguments[i]? = some (.literal name)) (invalid : name ∉ Provider.validated)
  /-- The algorithm is known, and weak. -/
  | algorithm {arg : Argument} (argument : o.site.arguments[o.rule.algorithmIndex]? = some arg)
      (resolved : (resolve p bound o.method.id arg).provenance ≠ .unresolved)
      (weak : o.rule.matchesAlgorithm (resolve p bound o.method.id arg).value = true)
  | unknownAlgorithm {arg : Argument} (strict : strict = true)
      (argument : o.site.arguments[o.rule.algorithmIndex]? = some arg)
      (unresolved : (resolve p bound o.method.id arg).provenance = .unresolved)
  | unknownProvider {i : Nat} {arg : Argument} (strict : strict = true)
      (index : o.rule.providerIndex = some i) (argument : o.site.arguments[i]? = some arg)
      (notLiteral : ∀ name, arg ≠ .literal name)

/-- An occurrence that the settings do not allow at this threshold. -/
structure Breach (s : Settings) (threshold : Severity) (rules : RuleSet) (p : Program)
    (o : Occurrence) : Prop where
  method : o.method ∈ p.methodsInOrder
  site : o.method.analyzableBody.bind (·[o.index]?) = some o.site
  rule : o.rule ∈ rules.rules
  applies : o.rule.appliesTo o.site = true
  category : o.rule.category ∉ s.policy.ignoreCategories
  severity : threshold ≤ s.policy.overrides[o.rule.category]?.getD o.rule.severity
  objection : Objection s.policy.failOnUnresolved p s.analysis.depthBound o

section
variable {p : Program} {bound : DepthBound} {o : Occurrence}

/-- A provider is not validated if and only if it is a literal that is not on the list. -/
theorem evaluate_provider_eq_notValidated_iff {site : CallSite} {rule : Rule} :
    (Provider.evaluate site rule).2 = .notValidated ↔ ∃ i name, rule.providerIndex = some i ∧
      site.arguments[i]? = some (.literal name) ∧ name ∉ Provider.validated := by
  unfold Provider.evaluate
  cases rule.providerIndex with
  | none => simp
  | some i =>
    cases hargument : site.arguments[i]? with
    | none => simp [hargument]
    | some arg => cases arg <;> simp [hargument, Provider.classify]

/-- A provider is unresolved if and only if the argument for it is there and is no literal. -/
theorem evaluate_provider_eq_unresolved_iff {site : CallSite} {rule : Rule} :
    (Provider.evaluate site rule).2 = .unresolved ↔ ∃ i arg, rule.providerIndex = some i ∧
      site.arguments[i]? = some arg ∧ ∀ name, arg ≠ .literal name := by
  unfold Provider.evaluate
  cases rule.providerIndex with
  | none => simp
  | some i =>
    cases hargument : site.arguments[i]? with
    | none => simp [hargument]
    | some arg =>
      cases arg with
      | literal name =>
        by_cases hvalid : name ∈ Provider.validated <;>
          simp [hargument, Provider.classify, hvalid]
      | parameter | unsupported => simp [hargument, Provider.classify]

/-- What makes a finding a violation, in terms of what is known at its call site. -/
theorem isViolation_finding (policy : Policy) (rule : Rule) (method : Method) (site : CallSite)
    (v : ResolvedValue) :
    policy.isViolation (finding rule method site v) = true ↔
      ((Provider.evaluate site rule).2 = .notValidated ∨
        v.provenance ≠ .unresolved ∧ rule.matchesAlgorithm v.value = true) ∨
      policy.failOnUnresolved = true ∧
        (v.provenance = .unresolved ∨ (Provider.evaluate site rule).2 = .unresolved) := by
  simp [Policy.isViolation, Finding.isNonCompliant, Finding.hasUnresolved, finding,
    ResolvedValue.isResolved]

/-- A finding is a violation if and only if there is an objection to what its call site passes. -/
theorem isViolation_finding_iff (policy : Policy) (happlies : o.rule.appliesTo o.site = true) :
    policy.isViolation (finding o.rule o.method o.site
      (algorithmAt p bound o.method o.site o.rule)) = true ↔
        Objection policy.failOnUnresolved p bound o := by
  -- A rule that applies finds an argument for the algorithm.
  obtain ⟨arg, harg⟩ : ∃ arg, o.site.arguments[o.rule.algorithmIndex]? = some arg := by
    simp only [Rule.appliesTo, Bool.and_eq_true, decide_eq_true_eq] at happlies
    exact ⟨_, List.getElem?_eq_getElem happlies.2⟩
  have hvalue : algorithmAt p bound o.method o.site o.rule = resolve p bound o.method.id arg := by
    rw [algorithmAt, harg]
  rw [hvalue, isViolation_finding, evaluate_provider_eq_notValidated_iff,
    evaluate_provider_eq_unresolved_iff]
  constructor
  · rintro ((⟨i, name, hindex, hname, hinvalid⟩ | ⟨hresolved, hweak⟩) |
      ⟨hstrict, hunresolved | ⟨i, arg, hindex, hargument, hliteral⟩⟩)
    · exact .provider hindex hname hinvalid
    · exact .algorithm harg hresolved hweak
    · exact .unknownAlgorithm hstrict harg hunresolved
    · exact .unknownProvider hstrict hindex hargument hliteral
  · intro hobjection
    cases hobjection with
    | provider hindex hname hinvalid => exact .inl (.inl ⟨_, _, hindex, hname, hinvalid⟩)
    | algorithm hargument hresolved hweak =>
      obtain rfl := Option.some.inj (harg.symm.trans hargument)
      exact .inl (.inr ⟨hresolved, hweak⟩)
    | unknownAlgorithm hstrict hargument hunresolved =>
      obtain rfl := Option.some.inj (harg.symm.trans hargument)
      exact .inr ⟨hstrict, .inl hunresolved⟩
    | unknownProvider hstrict hindex hargument hliteral =>
      exact .inr ⟨hstrict, .inr ⟨_, _, hindex, hargument, hliteral⟩⟩

end

/-- The verdict on a scan fails if and only if there is a breach. -/
theorem pass_scanProgram_eq_false_iff (s : Settings) (threshold : Severity) (rules : RuleSet)
    (p : Program) :
    (({ s.policy with failOn := threshold } : Policy).evaluate
      (scanProgram p rules s.analysis)).pass = false ↔ ∃ o, Breach s threshold rules p o := by
  rw [Policy.pass_eq_false_iff]
  constructor
  · rintro ⟨f, hf, hcounts, hviolation, hsevere⟩
    obtain ⟨o, ho⟩ := mem_scanWithin_iff.1 hf
    obtain rfl := ho.finding
    exact ⟨o, ho.method, ho.site, ho.rule, ho.applies, (Policy.ignores_eq_false_iff _ _).1 hcounts,
      hsevere, (isViolation_finding_iff _ ho.applies).1 hviolation⟩
  · rintro ⟨o, ho⟩
    exact ⟨_, mem_scanWithin_iff.2 ⟨o, ho.method, ho.site, ho.rule, ho.applies, rfl⟩,
      (Policy.ignores_eq_false_iff _ _).2 ho.category,
      (isViolation_finding_iff _ ho.applies).2 ho.objection, ho.severity⟩

/-! ## Audits that can be carried out -/

/-- The threshold of an audit: what the user asks for, if it is a severity, and otherwise what the
settings say. -/
def threshold (r : ScanRequest) (s : Settings) : Severity :=
  (r.failOn.bind Severity.ofUser?).getD s.policy.failOn

/-- Everything that is asked for can be loaded, and the report can be written. -/
structure Ready (fs : Files) (r : ScanRequest) (s : Settings) (rules : RuleSet) (p : Program) :
    Prop where
  settings : Settings.load fs (r.settings.getD (Settings.pathFor fs r.path)) = .ok s
  rules : RuleSet.loadOrStandard fs (r.rules.or s.rules) = .ok rules
  program : Model.load fs r.path = .ok p
  output : ∀ path, r.output = some path → ∃ place, fs.target path = .ok place

section
variable {fs : Files} {stamp : Stamp} {r : ScanRequest}

/-- The threshold that is asked for, if the user names a severity. -/
theorem chooseThreshold_fst (name : Option String) :
    (chooseThreshold name).1 = name.bind Severity.ofUser? := by
  cases name with
  | none => rfl
  | some name =>
    rw [chooseThreshold, Option.bind_some]
    cases Severity.ofUser? name <;> rfl

/-- What an audit is made of. -/
theorem run_eq_ok_iff {report : Report} :
    Audit.run fs r.path ⟨r.settings, r.rules, (chooseThreshold r.failOn).1⟩ = .ok report ↔
      ∃ s rules p, Settings.load fs (r.settings.getD (Settings.pathFor fs r.path)) = .ok s ∧
        RuleSet.loadOrStandard fs (r.rules.or s.rules) = .ok rules ∧
        Model.load fs r.path = .ok p ∧
        report = Audit.report p.name { s.policy with failOn := threshold r s }
          (scanProgram p rules s.analysis) := by
  have hrules : ∀ s : Settings, Audit.rulesPath s ⟨r.settings, r.rules,
      (chooseThreshold r.failOn).1⟩ = r.rules.or s.rules := fun _ => Option.orElse_eq_or ..
  simp only [Audit.run, Audit.settings, bind_eq_ok_iff]
  constructor
  · rintro ⟨_, ⟨s, hs, hpolicy⟩, rules, hload, p, hp, hreport⟩
    cases hpolicy
    cases hreport
    exact ⟨s, rules, p, hs, hrules s ▸ hload, hp, by rw [threshold, chooseThreshold_fst]⟩
  · rintro ⟨s, rules, p, hs, hload, hp, rfl⟩
    refine ⟨_, ⟨s, hs, rfl⟩, rules, (hrules s).symm ▸ hload, p, hp, ?_⟩
    rw [threshold, chooseThreshold_fst]
    rfl

/-- The code of an audit that does not fail is that of its verdict. -/
theorem scan_code_iff {code : Nat} (hcode : code ≠ 2) :
    (scan fs stamp r).code = code ↔ ∃ report,
      Audit.run fs r.path ⟨r.settings, r.rules, (chooseThreshold r.failOn).1⟩ = .ok report ∧
        (∀ path, r.output = some path → ∃ place, fs.target path = .ok place) ∧
        verdictCode report.verdict = code := by
  cases hrun : Audit.run fs r.path ⟨r.settings, r.rules, (chooseThreshold r.failOn).1⟩ with
  | error e => simpa [scan, hrun, Outcome.failed] using hcode.symm
  | ok report =>
    cases houtput : r.output with
    | none => simp [scan, hrun, houtput]
    | some path =>
      cases htarget : fs.target path with
      | error e =>
        simpa [scan, hrun, houtput, Files.write, htarget, Outcome.failed] using hcode.symm
      | ok place => simp [scan, hrun, houtput, Files.write, htarget]

/-- The code of an audit that does not fail is that of the verdict on a scan. -/
theorem scan_code_ready_iff {code : Nat} (hcode : code ≠ 2) :
    (scan fs stamp r).code = code ↔ ∃ s rules p, Ready fs r s rules p ∧
      verdictCode (({ s.policy with failOn := threshold r s } : Policy).evaluate
        (scanProgram p rules s.analysis)) = code := by
  rw [scan_code_iff hcode]
  constructor
  · rintro ⟨report, hrun, houtput, hverdict⟩
    obtain ⟨s, rules, p, hs, hrules, hp, rfl⟩ := run_eq_ok_iff.1 hrun
    exact ⟨s, rules, p, ⟨hs, hrules, hp, houtput⟩, hverdict⟩
  · rintro ⟨s, rules, p, hready, hverdict⟩
    exact ⟨_, run_eq_ok_iff.2 ⟨s, rules, p, hready.settings, hready.rules, hready.program, rfl⟩,
      hready.output, hverdict⟩

theorem verdictCode_eq_one_iff (v : PolicyVerdict) : verdictCode v = 1 ↔ v.pass = false := by
  cases h : v.pass <;> simp [verdictCode, h]

theorem verdictCode_eq_zero_iff (v : PolicyVerdict) : verdictCode v = 0 ↔ ¬ v.pass = false := by
  cases h : v.pass <;> simp [verdictCode, h]

/-- An audit ends with 1 if and only if it can be carried out and finds a breach. -/
theorem scan_code_eq_one_iff :
    (scan fs stamp r).code = 1 ↔ ∃ s rules p, Ready fs r s rules p ∧
      ∃ o, Breach s (threshold r s) rules p o := by
  simp only [scan_code_ready_iff (by decide : 1 ≠ 2), verdictCode_eq_one_iff,
    pass_scanProgram_eq_false_iff]

/-- An audit ends with 0 if and only if it can be carried out and finds no breach. -/
theorem scan_code_eq_zero_iff :
    (scan fs stamp r).code = 0 ↔ ∃ s rules p, Ready fs r s rules p ∧
      ¬ ∃ o, Breach s (threshold r s) rules p o := by
  simp only [scan_code_ready_iff (by decide : 0 ≠ 2), verdictCode_eq_zero_iff,
    pass_scanProgram_eq_false_iff]

/-- An audit ends with 2 if and only if it cannot be carried out. -/
theorem scan_code_eq_two_iff :
    (scan fs stamp r).code = 2 ↔ ¬ ∃ s rules p, Ready fs r s rules p := by
  constructor
  · rintro htwo ⟨s, rules, p, hready⟩
    by_cases hbreach : ∃ o, Breach s (threshold r s) rules p o
    · have hone : (scan fs stamp r).code = 1 :=
        scan_code_eq_one_iff.2 ⟨s, rules, p, hready, hbreach⟩
      exact absurd (htwo.symm.trans hone) (by decide)
    · have hzero : (scan fs stamp r).code = 0 :=
        scan_code_eq_zero_iff.2 ⟨s, rules, p, hready, hbreach⟩
      exact absurd (htwo.symm.trans hzero) (by decide)
  · intro hunready
    by_contra hcode
    obtain ⟨s, rules, p, hready, -⟩ := (scan_code_ready_iff hcode).1 rfl
    exact hunready ⟨s, rules, p, hready⟩

end

/-- An audit ends with 1 if it can be carried out and finds a breach, with 0 if it can be carried
out and finds none, and with 2 if it cannot be carried out. -/
theorem perform_scan_code_iff (fs : Files) (stamp : Stamp) (r : ScanRequest) :
    ((perform fs stamp (.scan r)).code = 1 ↔ ∃ s rules p, Ready fs r s rules p ∧
      ∃ o, Breach s (threshold r s) rules p o) ∧
    ((perform fs stamp (.scan r)).code = 0 ↔ ∃ s rules p, Ready fs r s rules p ∧
      ¬ ∃ o, Breach s (threshold r s) rules p o) ∧
    ((perform fs stamp (.scan r)).code = 2 ↔ ¬ ∃ s rules p, Ready fs r s rules p) :=
  ⟨scan_code_eq_one_iff, scan_code_eq_zero_iff, scan_code_eq_two_iff⟩

/-! ## An audit with a breach -/

/-- A model with a method that asks for a digest. -/
def digestModel : String :=
  "\x7b\"classes\":[\x7b\"name\":\"App\",\"methods\":[\x7b\"name\":\"hash\",\"body\":\x7b" ++
    "\"statements\":[\x7b\"invoke\":\x7b\"declaring_type\":\"Digest\",\"method\":\"of\"," ++
    "\"args\":[\x7b\"literal\":\"MD5\"\x7d],\"line\":7\x7d\x7d]\x7d\x7d]\x7d]\x7d"

/-- A rule file with a rule for which the digest is weak. -/
def digestRules : String :=
  "[[rules]]\ncategory=\"hash\"\ndeclaring_type=\"Digest\"\nmethod_name=\"of\"\n" ++
    "algorithm_arg_index=0\nmatch_pattern=\"MD5\""

/-- A working directory with the model, the rule file and an older report. -/
def workingFiles : Files where
  root := .directory [
    ("app.json", .file digestModel.toUTF8),
    ("rules.toml", .file digestRules.toUTF8),
    ("report.txt", .file "old".toUTF8)]
  here := []

/-- The request for an audit of the model. -/
def digestRequest : ScanRequest :=
  ⟨"app.json", some "rules.toml", none, "console", none, some "report.txt"⟩

/-- The rule of the rule file. -/
def digestRule : Rule where
  id := "hash:Digest.of"
  category := "hash"
  declaringType := "Digest"
  methodName := "of"
  algorithmIndex := 0
  providerIndex := none
  pattern := some "MD5"
  severity := .high
  description := ""
  regex := some (.seq (.char 'M') (.seq (.char 'D') (.char '5')))

/-- The model, as it is read. -/
def digestFile : ModelFile :=
  ⟨none, [⟨"App", none, [⟨"hash", none, [], true,
    some ⟨[.invoke ⟨"Digest", "of", [.literal "MD5"], none, some 7, none⟩], none⟩⟩]⟩]⟩

/-- The call site that the rule watches. -/
def digestSite : CallSite := ⟨0, 0, "Digest", "of", [.literal "MD5"], some ⟨none, 7⟩⟩

/-- The method that contains it. -/
def digestMethod : Method :=
  ⟨0, "App.hash", "App", "hash", "hash()", [], true, some [digestSite]⟩

/-- The program of the model. -/
def digestProgram : Program := ⟨"app.json", [⟨"App", none, [0]⟩], [digestMethod], ⟨[], 0⟩⟩

/-- The model is loaded as this program. -/
theorem load_digestModel : Model.load workingFiles "app.json" = .ok digestProgram := by
  have hparse : ModelFile.parse? digestModel = some digestFile := by decide +kernel
  have hload : Model.load workingFiles "app.json" =
      Model.lowered "app.json" [⟨"app.json", digestFile⟩] :=
    Model.load_file rfl (by decide +kernel) hparse
  have hlower : Model.lower "app.json" [⟨"app.json", digestFile⟩] = .ok digestProgram := by cbv
  rw [hload, Model.lowered, hlower]

theorem load_digestRules :
    RuleSet.loadOrStandard workingFiles (some "rules.toml") = .ok ⟨[digestRule]⟩ := by
  decide +kernel

/-- The audit of the model can be carried out. -/
theorem ready_digest :
    Ready workingFiles digestRequest .standard ⟨[digestRule]⟩ digestProgram where
  settings := rfl
  rules := load_digestRules
  program := load_digestModel
  output path hpath := by
    cases hpath
    exact ⟨["report.txt"], rfl⟩

/-- The digest is a breach, as the algorithm is known and weak. -/
theorem breach_digest :
    Breach .standard .high ⟨[digestRule]⟩ digestProgram
      ⟨digestRule, digestMethod, 0, digestSite⟩ where
  method := List.mem_singleton_self _
  site := rfl
  rule := List.mem_singleton_self _
  applies := by decide
  category := Std.ExtTreeSet.not_mem_empty
  severity := by
    have hnone : Settings.standard.policy.overrides[digestRule.category]? = none :=
      Std.ExtTreeMap.getElem?_empty
    rw [hnone]
    decide
  objection := .algorithm rfl (by decide) (by decide +kernel)

/-- The audit of the model ends with 1, as it can be carried out and the digest is a breach. -/
theorem perform_scan_code_iff_digest :
    Ready workingFiles digestRequest .standard ⟨[digestRule]⟩ digestProgram ∧
    Breach .standard (threshold digestRequest .standard) ⟨[digestRule]⟩ digestProgram
      ⟨digestRule, digestMethod, 0, digestSite⟩ ∧
    (perform workingFiles ⟨"", ""⟩ (.scan digestRequest)).code = 1 :=
  ⟨ready_digest, breach_digest, (perform_scan_code_iff workingFiles ⟨"", ""⟩ digestRequest).1.2
    ⟨_, _, _, ready_digest, _, breach_digest⟩⟩

end Command

end CryptoAudit
