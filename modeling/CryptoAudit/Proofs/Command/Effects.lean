import CryptoAudit.Proofs.Command.Gate
import CryptoAudit.Proofs.Files.Writing

/-!
# The effects of commands

What a run of the program does to the files (`run_effects`). An audit changes at most the file that
it is asked to write, and only if it was carried out; the file then holds the report, and nothing is
printed. Nothing is changed by an audit for which something cannot be loaded, by listing the rules,
and by making a settings file where there is something of this name.

An audit writes last, when nothing but the writing itself can fail (`scan_cases`). What writing
changes is known from `Files.sameBut_write` and `Files.find_write`.
-/

namespace CryptoAudit.Command

/-! ## Audits -/

/-- Something that an audit needs cannot be loaded. -/
inductive Unloadable (fs : Files) (r : ScanRequest) : Prop where
  | settings {e : Failure}
      (failed : Settings.load fs (r.settings.getD (Settings.pathFor fs r.path)) = .error e)
  | rules {s : Settings} {e : Failure}
      (settings : Settings.load fs (r.settings.getD (Settings.pathFor fs r.path)) = .ok s)
      (failed : RuleSet.loadOrStandard fs (r.rules.or s.rules) = .error e)
  | model {e : Failure} (failed : Model.sources fs r.path = .error e)
  | lowering {name : String} {found : List Model.Source} {e : Model.BadBody}
      (model : Model.sources fs r.path = .ok (name, found))
      (failed : Model.lower name found = .error e)

/-- The report of an audit. -/
def reportOf (fs : Files) (r : ScanRequest) : Except Failure Report :=
  Audit.run fs r.path ⟨r.settings, r.rules, (chooseThreshold r.failOn).1⟩

/-- The effects of an audit. -/
structure ScanEffects (fs : Files) (stamp : Stamp) (r : ScanRequest) (o : Outcome) : Prop where
  /-- An audit that can be carried out ends with 0 or 1. -/
  finished : o.code = 0 ∨ o.code = 1 ↔ ∃ s rules p, Ready fs r s rules p
  /-- Any other one ends with 2 and leaves the files as they are. -/
  failed : ¬ (o.code = 0 ∨ o.code = 1) → o.code = 2 ∧ o.files = fs
  unloadable : Unloadable fs r → o.code = 2 ∧ o.files = fs
  printed : r.output = none → o.files = fs
  /-- The report is in the file, which is all that changed. -/
  written : ∀ path, r.output = some path → o.code = 0 ∨ o.code = 1 → ∃ report place,
    reportOf fs r = .ok report ∧ fs.target path = .ok place ∧ fs.SameBut place o.files ∧
    o.files.find path = .ok (.file (report.render stamp (chooseFormat r.format).1).toUTF8) ∧
    o.output = ""

section
variable {fs : Files} {stamp : Stamp} {r : ScanRequest}

/-- How an audit can end: it fails before it writes, it prints the report, or it writes it. -/
theorem scan_cases (fs : Files) (stamp : Stamp) (r : ScanRequest) :
    (∃ messages e, scan fs stamp r = .failed fs messages e) ∨
    ∃ report messages, reportOf fs r = .ok report ∧
      (r.output = none ∧ scan fs stamp r =
        ⟨verdictCode report.verdict, report.render stamp (chooseFormat r.format).1, messages, fs⟩ ∨
      ∃ path written, r.output = some path ∧
        fs.write path (report.render stamp (chooseFormat r.format).1) = .ok written ∧
        scan fs stamp r = ⟨verdictCode report.verdict, "", messages, written⟩) := by
  cases hreport : reportOf fs r with
  | error e =>
    rw [reportOf] at hreport
    simp only [scan, hreport]
    exact .inl ⟨_, e, rfl⟩
  | ok report =>
    rw [reportOf] at hreport
    simp only [scan, hreport]
    cases r.output with
    | none => exact .inr ⟨report, _, rfl, .inl ⟨rfl, rfl⟩⟩
    | some path =>
      cases hwrite : fs.write path (report.render stamp (chooseFormat r.format).1) with
      | error e =>
        simp only [hwrite]
        exact .inl ⟨_, _, rfl⟩
      | ok written =>
        simp only [hwrite]
        exact .inr ⟨report, _, rfl, .inr ⟨path, written, rfl, hwrite, rfl⟩⟩

/-- An audit cannot be carried out if something that it needs cannot be loaded. -/
theorem Unloadable.not_ready (h : Unloadable fs r) : ¬ ∃ s rules p, Ready fs r s rules p := by
  rintro ⟨s, rules, p, hready⟩
  cases h with
  | settings hfailed => cases hfailed.symm.trans hready.settings
  | rules hsettings hfailed =>
    cases hsettings.symm.trans hready.settings
    cases hfailed.symm.trans hready.rules
  | model hfailed =>
    obtain ⟨found, hfound, -⟩ := bind_eq_ok_iff.1 hready.program
    cases hfailed.symm.trans hfound
  | lowering hmodel hfailed =>
    obtain ⟨found, hfound, hlowered⟩ := bind_eq_ok_iff.1 hready.program
    cases hmodel.symm.trans hfound
    simp only [Model.lowered, hfailed] at hlowered
    cases hlowered

theorem verdictCode_eq (v : PolicyVerdict) : verdictCode v = 0 ∨ verdictCode v = 1 := by
  cases h : v.pass <;> simp [verdictCode, h]

/-- An audit ends with 0 or 1 if and only if it can be carried out. -/
theorem scan_finished_iff : (scan fs stamp r).code = 0 ∨ (scan fs stamp r).code = 1 ↔
    ∃ s rules p, Ready fs r s rules p := by
  constructor
  · rintro (hzero | hone)
    · obtain ⟨s, rules, p, hready, -⟩ := (scan_code_ready_iff (by decide)).1 hzero
      exact ⟨s, rules, p, hready⟩
    · obtain ⟨s, rules, p, hready, -⟩ := (scan_code_ready_iff (by decide)).1 hone
      exact ⟨s, rules, p, hready⟩
  · rintro ⟨s, rules, p, hready⟩
    have hcode := verdictCode_eq (({ s.policy with failOn := threshold r s } : Policy).evaluate
      (Scan.scanProgram p rules s.analysis))
    refine hcode.imp (fun hzero => ?_) fun hone => ?_
    · exact (scan_code_ready_iff (by decide)).2 ⟨s, rules, p, hready, hzero⟩
    · exact (scan_code_ready_iff (by decide)).2 ⟨s, rules, p, hready, hone⟩

/-- An audit that ends neither with 0 nor with 1 ends with 2, and has changed nothing. -/
theorem scan_failed (h : ¬ ((scan fs stamp r).code = 0 ∨ (scan fs stamp r).code = 1)) :
    (scan fs stamp r).code = 2 ∧ (scan fs stamp r).files = fs := by
  obtain ⟨messages, e, hscan⟩ | ⟨report, messages, -, ⟨-, hscan⟩ | ⟨path, written, -, -, hscan⟩⟩ :=
    scan_cases fs stamp r
  · rw [hscan]
    exact ⟨rfl, rfl⟩
  · rw [hscan] at h
    exact absurd (verdictCode_eq report.verdict) h
  · rw [hscan] at h
    exact absurd (verdictCode_eq report.verdict) h

/-- The effects of an audit, whether it prints its report, writes it or fails. -/
theorem scan_effects (fs : Files) (stamp : Stamp) (r : ScanRequest) :
    ScanEffects fs stamp r (scan fs stamp r) where
  finished := scan_finished_iff
  failed := scan_failed
  unloadable h := scan_failed fun hfinished => h.not_ready (scan_finished_iff.1 hfinished)
  printed houtput := by
    obtain ⟨messages, e, hscan⟩ | ⟨report, messages, -, ⟨-, hscan⟩ |
      ⟨path, written, hpath, -, -⟩⟩ := scan_cases fs stamp r
    · rw [hscan]
      rfl
    · rw [hscan]
    · cases houtput.symm.trans hpath
  written path hpath hcode := by
    obtain ⟨messages, e, hscan⟩ | ⟨report, messages, hreport, ⟨hnone, -⟩ |
      ⟨path', written, hpath', hwrite, hscan⟩⟩ := scan_cases fs stamp r
    · rw [hscan] at hcode
      exact hcode.elim nofun nofun
    · cases hpath.symm.trans hnone
    · cases hpath.symm.trans hpath'
      obtain ⟨place, htarget, hsame⟩ := Files.sameBut_write hwrite
      rw [hscan]
      exact ⟨report, place, hreport, htarget, hsame, Files.find_write hwrite, rfl⟩

end

/-! ## Settings files -/

/-- There is something with the name of the settings file, and it may not be overwritten. -/
def Blocked (fs : Files) (force : Bool) : Prop :=
  force = false ∧ (fs.node? (fs.here ++ [Settings.fileName])).isSome

/-- The effects of making a settings file. -/
structure InitEffects (fs : Files) (force : Bool) (o : Outcome) : Prop where
  sameBut : fs.SameBut (fs.here ++ [Settings.fileName]) o.files
  blocked : Blocked fs force → o.code = 1 ∧ o.files = fs
  /-- Otherwise the file is made, if it can be written. -/
  made : ¬ Blocked fs force → (∃ place, fs.target Settings.fileName = .ok place) →
    o.code = 0 ∧ o.files.read Settings.fileName = .ok Settings.starter

theorem isName_fileName : Files.IsName Settings.fileName := ⟨by decide, by decide⟩

/-- Where something of the name exists, and replacing it was not asked for, nothing is written. -/
theorem init_of_blocked {fs : Files} {force : Bool} (h : Blocked fs force) :
    (init fs force).code = 1 ∧ (init fs force).files = fs := by
  obtain ⟨hforce, hexists⟩ := h
  rw [init, isName_fileName.has_eq, hexists, hforce]
  exact ⟨rfl, rfl⟩

/-- Where nothing is in the way, the file is made unless it cannot be written. -/
theorem init_of_not_blocked {fs : Files} {force : Bool} (h : ¬ Blocked fs force) :
    (∃ e, fs.write Settings.fileName Settings.starter = .error e ∧
      init fs force = .failed fs [] (.badFile e)) ∨
    ∃ written, fs.write Settings.fileName Settings.starter = .ok written ∧
      init fs force = ⟨0, "Created " ++ Settings.fileName ++ "\n", [], written⟩ := by
  have hnew : ¬ (fs.has Settings.fileName && !force) = true := by
    rwa [isName_fileName.has_eq, Bool.and_eq_true, Bool.not_eq_true', and_comm]
  rw [init, if_neg hnew]
  cases fs.write Settings.fileName Settings.starter with
  | error e => exact .inl ⟨e, rfl, rfl⟩
  | ok written => exact .inr ⟨written, rfl, rfl⟩

/-- The effects of making a settings file. -/
theorem init_effects (fs : Files) (force : Bool) : InitEffects fs force (init fs force) := by
  by_cases hblocked : Blocked fs force
  · have hinit := init_of_blocked hblocked
    refine ⟨?_, fun _ => hinit, fun hnot => absurd hblocked hnot⟩
    rw [hinit.2]
    exact ⟨rfl, fun _ _ => rfl⟩
  · obtain ⟨e, hwrite, hinit⟩ | ⟨written, hwrite, hinit⟩ := init_of_not_blocked hblocked
    · rw [hinit]
      refine ⟨⟨rfl, fun _ _ => rfl⟩, fun h => absurd h hblocked, fun _ hplace => ?_⟩
      obtain ⟨place, hplace⟩ := hplace
      cases hwrite.symm.trans (Files.write_eq_ok_iff.2 ⟨place, hplace, rfl⟩)
    · rw [hinit]
      obtain ⟨place, htarget, hsame⟩ := Files.sameBut_write hwrite
      rw [isName_fileName.target_eq htarget] at hsame
      exact ⟨hsame, fun h => absurd h hblocked, fun _ _ => ⟨rfl, Files.read_write hwrite⟩⟩

/-! ## Runs -/

/-- The effects of a request. -/
def Effects (fs : Files) (stamp : Stamp) : Request → Outcome → Prop
  | .scan r, o => ScanEffects fs stamp r o
  | .init force, o => InitEffects fs force o
  | .listRules _ _, o | .version, o | .help, o => o.files = fs

/-- A run has the effects of what its arguments ask for. -/
theorem run_effects {args : List String} {request : Request} (h : Request.read args = .ok request)
    (fs : Files) (stamp : Stamp) : Effects fs stamp request (run fs stamp args) := by
  rw [run, h]
  cases request with
  | scan r => exact scan_effects fs stamp r
  | init force => exact init_effects fs force
  | listRules path format =>
    change (listRules fs path format).files = fs
    unfold listRules
    split <;> rfl
  | version | help => rfl

/-- The arguments that ask for the audit of the model with the digest. -/
def digestArguments : List String :=
  ["scan", "app.json", "--rules=rules.toml", "-o", "report.txt"]

/-- What the audit finds. -/
def digestFinding : Finding where
  ruleId := "hash:Digest.of"
  category := "hash"
  api := "Digest.of"
  severity := .high
  description := ""
  className := "App"
  methodSignature := "hash()"
  algorithm := "MD5"
  provenance := .directConstant
  trace := []
  flagged := true
  location := some ⟨none, 7⟩
  provider := "none"
  verdict := .notApplicable

/-- What the audit writes. -/
def digestReport : String :=
  "\n  1 finding(s) detected:\n\n" ++
    "  [HIGH]     hash Digest.of (NON-COMPLIANT)\n" ++
    "           at App: hash() line 7\n" ++
    "           algorithm: MD5 (direct constant) [weak]\n\n" ++
    "  Result: FAIL (1 non-compliant, threshold: high, highest: high)\n\n"

theorem scanProgram_digest :
    Scan.scanProgram digestProgram ⟨[digestRule]⟩ .standard = [digestFinding] := by
  cbv

theorem render_digest :
    (Audit.report "app.json" .standard [digestFinding]).render ⟨"", ""⟩ .console =
      digestReport := by
  decide +kernel

/-- The report of the audit is on this finding. -/
theorem reportOf_digest :
    reportOf workingFiles digestRequest =
      .ok (Audit.report "app.json" .standard [digestFinding]) := by
  refine run_eq_ok_iff.2 ⟨_, _, _, ready_digest.settings, ready_digest.rules,
    ready_digest.program, ?_⟩
  exact congrArg (Audit.report "app.json" .standard) scanProgram_digest.symm

/-- The audit ends with 1, and the report on its finding is in the file that held the older one. -/
theorem run_effects_workingFiles :
    Request.read digestArguments = .ok (.scan digestRequest) ∧
    (run workingFiles ⟨"", ""⟩ digestArguments).code = 1 ∧
    Effects workingFiles ⟨"", ""⟩ (.scan digestRequest)
      (run workingFiles ⟨"", ""⟩ digestArguments) ∧
    (run workingFiles ⟨"", ""⟩ digestArguments).files.read "report.txt" = .ok digestReport := by
  have hread : Request.read digestArguments = .ok (.scan digestRequest) := by decide +kernel
  have heffects : ScanEffects workingFiles ⟨"", ""⟩ digestRequest
      (run workingFiles ⟨"", ""⟩ digestArguments) := run_effects hread workingFiles ⟨"", ""⟩
  have hscan : (scan workingFiles ⟨"", ""⟩ digestRequest).code = 1 :=
    scan_code_eq_one_iff.2 ⟨_, _, _, ready_digest, _, breach_digest⟩
  have hcode : (run workingFiles ⟨"", ""⟩ digestArguments).code = 1 := by
    rw [run, hread]
    exact hscan
  obtain ⟨report, -, hreport, -, -, hfile, -⟩ := heffects.written "report.txt" rfl (.inr hcode)
  obtain rfl := Except.ok.inj (reportOf_digest.symm.trans hreport)
  refine ⟨hread, hcode, heffects, ?_⟩
  rw [Files.read, hfile]
  dsimp only
  rw [Files.decode_toUTF8]
  exact congrArg Except.ok render_digest

end CryptoAudit.Command
