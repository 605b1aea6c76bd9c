import CryptoAudit.Audit
import CryptoAudit.Proofs.Finding.Policy

/-!
# Verdicts under other policies

What an audit finds does not depend on the threshold that is asked for. Two audits of the same
target that differ in the threshold alone fail alike, or report the same findings of the same
program, and their verdicts differ at most in the threshold and in whether it is met
(`SameButThreshold`).

`verdict_monotone_additive` puts this beside what holds of policies by themselves: a looser policy
passes what a stricter one does, and the verdict on findings comes from those on their parts, in any
order.
-/

namespace CryptoAudit.Audit

/-- The audits fail alike, or their reports differ at most in the threshold of the verdict and in
whether it is met. -/
inductive SameButThreshold : Except Failure Report → Except Failure Report → Prop
  | error (e : Failure) : SameButThreshold (.error e) (.error e)
  | ok {r r' : Report} (target : r'.target = r.target) (findings : r'.findings = r.findings)
      (fingerprint : r'.fingerprint = r.fingerprint)
      (verdict : r'.verdict = { r.verdict with
        pass := r'.verdict.pass
        failThreshold := r'.verdict.failThreshold }) :
      SameButThreshold (.ok r) (.ok r')

/-- The findings that are reported and what is counted do not depend on the threshold. -/
theorem report_sameButThreshold (name : String) (policy : Policy) (found : List Finding)
    (a b : Severity) :
    SameButThreshold (.ok (report name { policy with failOn := a } found))
      (.ok (report name { policy with failOn := b } found)) :=
  .ok rfl rfl rfl rfl

/-- What comes before the reports may be the same for both. -/
theorem SameButThreshold.bind {α : Type} (x : Except Failure α) {f g : α → Except Failure Report}
    (h : ∀ a, SameButThreshold (f a) (g a)) : SameButThreshold (x >>= f) (x >>= g) := by
  cases x with
  | error e => exact .error e
  | ok a => exact h a

/-- The steps of an audit. The threshold comes in with the report. -/
theorem run_eq_bind (files : Files) (target : String) (options : AuditOptions) :
    run files target options = do
      let s ← Settings.load files (options.settings.getD (Settings.pathFor files target))
      let rules ← RuleSet.loadOrStandard files (rulesPath s options)
      let p ← Model.load files target
      return report p.name { s.policy with failOn := options.failOn.getD s.policy.failOn }
        (Scan.scanProgram p rules s.analysis) := by
  simp only [run, settings, bind_assoc, pure_bind]
  rfl

/-- Of an audit, the threshold that is asked for changes nothing but the verdict. -/
theorem run_sameButThreshold (files : Files) (target : String) (options : AuditOptions)
    (failOn : Option Severity) :
    SameButThreshold (run files target options) (run files target { options with failOn }) := by
  rw [run_eq_bind, run_eq_bind]
  refine .bind _ fun s => .bind _ fun rules => .bind _ fun p => ?_
  exact report_sameButThreshold p.name s.policy _ _ _

/-- A looser policy passes what a stricter one does, for the findings or for some of them. The
verdict on a concatenation comes from the verdicts on its parts, and the order of findings has no
part in it. The threshold that is asked for changes an audit only in the threshold of its verdict
and in whether it is met. -/
theorem verdict_monotone_additive :
    (∀ (p q : Policy) (fs gs : List Finding), q.Looser p → gs ⊆ fs →
      (p.evaluate fs).pass = true → (q.evaluate gs).pass = true) ∧
    (∀ (p : Policy) (fs gs : List Finding),
      p.evaluate (fs ++ gs) = (p.evaluate fs).join (p.evaluate gs)) ∧
    (∀ (p : Policy) (fs gs : List Finding), fs.Perm gs → p.evaluate fs = p.evaluate gs) ∧
    ∀ (files : Files) (target : String) (options : AuditOptions) (failOn : Option Severity),
      SameButThreshold (run files target options) (run files target { options with failOn }) := by
  refine ⟨fun p q fs gs hlooser => hlooser.pass, fun p => p.evaluate_append,
    fun p fs gs => p.evaluate_perm, run_sameButThreshold⟩

/-- A use of an API of this category, with this verdict on the provider. -/
def useOf (category : String) (severity : Severity) (verdict : ProviderVerdict) : Finding :=
  { (default : Finding) with category, severity, verdict }

/-- A policy that fails on what is unresolved and takes ciphers less seriously. -/
def strictPolicy : Policy :=
  ⟨.high, ∅, (∅ : Std.ExtTreeMap String Severity).insert "Cipher" .medium, true⟩

/-- The same policy, loosened in every respect. -/
def relaxedPolicy : Policy :=
  ⟨.critical, (∅ : Std.ExtTreeSet String).insert "Mac",
    (∅ : Std.ExtTreeMap String Severity).insert "Cipher" .low, false⟩

/-- The relaxed policy is looser than the strict one, in each of the four respects. -/
theorem relaxedPolicy_looser : relaxedPolicy.Looser strictPolicy where
  failOn := by decide
  ignored category hmem := by simp [strictPolicy] at hmem
  unresolved h := by simp [relaxedPolicy] at h
  overrides category := by
    simp only [relaxedPolicy, strictPolicy, Std.ExtTreeMap.getElem?_insert]
    split
    · exact .some (by decide)
    · simp

/-- Violations that the strict policy lets pass, one of them only for its override. -/
def uses : List Finding :=
  [useOf "Cipher" .critical .notValidated, useOf "Mac" .medium .notValidated,
    useOf "Signature" .low .unresolved]

/-- The relaxed policy lets some of them pass too, and their order makes no difference. -/
theorem verdict_monotone_additive_uses :
    relaxedPolicy.Looser strictPolicy ∧ uses.tail ⊆ uses ∧
      (strictPolicy.evaluate uses).pass = true ∧
      (relaxedPolicy.evaluate uses.tail).pass = true ∧ uses.Perm uses.reverse ∧
      strictPolicy.evaluate uses.reverse = ⟨true, 3, 3, 3, some .medium, .high⟩ := by
  obtain ⟨hlooser, -, hperm, -⟩ := verdict_monotone_additive
  have hsub : uses.tail ⊆ uses := (List.tail_sublist uses).subset
  have hpass : (strictPolicy.evaluate uses).pass = true := by decide
  have hreverse : uses.Perm uses.reverse := uses.reverse_perm.symm
  refine ⟨relaxedPolicy_looser, hsub, hpass, ?_, hreverse, ?_⟩
  · exact hlooser _ _ _ _ relaxedPolicy_looser hsub hpass
  · rw [← hperm _ _ _ hreverse]
    decide

end CryptoAudit.Audit
