import CryptoAudit.Finding.Policy

/-!
# Verdicts and reported findings

A policy is applied to findings twice: `Policy.apply` makes the list that is reported, and
`Policy.evaluate` the verdict that stands beside it. Both leave out ignored categories and give
severities to the others, each on its own. They agree (`evaluate_summarizes_apply`): what the
verdict says of the findings is what a reader of the reported findings can count (`Policy.judge`).
To apply a policy again changes nothing, so the verdict on the reported findings is the same too.

The verdict on two lists of findings together is put together from the verdicts on each of them
(`Policy.evaluate_append`), and hence it does not depend on their order (`Policy.evaluate_perm`).
A policy is looser than another (`Policy.Looser`) if it fails fewer findings, and then an audit that
passes goes on to pass (`Policy.Looser.pass`).
-/

namespace CryptoAudit

/-! ## Severities in order -/

namespace Severity

theorem rank_inj {a b : Severity} (h : a.rank = b.rank) : a = b := by
  cases a <;> cases b <;> first | rfl | cases h

instance : Std.IsLinearOrder Severity where
  le_refl a := Nat.le_refl a.rank
  le_trans _ _ _ hab hbc := Nat.le_trans hab hbc
  le_antisymm _ _ hab hba := rank_inj (Nat.le_antisymm hab hba)
  le_total a b := Nat.le_total a.rank b.rank

theorem max_def (a b : Severity) : max a b = if a ≤ b then b else a := rfl

instance : Std.LawfulOrderMax Severity where
  max_eq_or a b := by
    rw [max_def]
    split
    · exact .inr rfl
    · exact .inl rfl
  max_le_iff a b c := by
    rw [max_def]
    split
    next hab => exact ⟨fun hbc => ⟨Std.le_trans hab hbc, hbc⟩, And.right⟩
    next hab =>
      have hba : b ≤ a := (Std.le_total (a := a) (b := b)).resolve_left hab
      exact ⟨fun hac => ⟨hac, Std.le_trans hba hac⟩, And.left⟩

/-- The highest severity of two lists together. -/
theorem max?_append (as bs : List Severity) : (as ++ bs).max? = max as.max? bs.max? := by
  induction as with
  | nil => simp
  | cons a as ih =>
    rw [List.cons_append, List.max?_cons, List.max?_cons, ih]
    cases as.max? <;> cases bs.max? <;> simp [Std.Associative.assoc]

theorem max?_perm {as bs : List Severity} (h : as.Perm bs) : as.max? = bs.max? := by
  refine Option.ext fun s => ?_
  simp only [List.max?_eq_some_iff, h.mem_iff]

end Severity

namespace Policy

variable (p : Policy)

/-! ## What is done to one finding -/

/-- The finding with the severity that the policy gives it. -/
def regrade (f : Finding) : Finding := { f with severity := p.severityOf f }

@[simp] theorem severity_regrade (f : Finding) : (p.regrade f).severity = p.severityOf f := rfl

@[simp] theorem severityOf_regrade (f : Finding) : p.severityOf (p.regrade f) = p.severityOf f := by
  have hcategory : (p.regrade f).category = f.category := rfl
  simp only [severityOf, hcategory, severity_regrade]
  cases p.overrides[f.category]? <;> rfl

@[simp] theorem regrade_regrade (f : Finding) : p.regrade (p.regrade f) = p.regrade f := by
  rw [regrade, severityOf_regrade]
  rfl

theorem apply_eq (fs : List Finding) :
    p.apply fs = (fs.filter (!p.ignores ·)).map p.regrade := rfl

theorem apply_append (fs gs : List Finding) : p.apply (fs ++ gs) = p.apply fs ++ p.apply gs := by
  rw [apply_eq, List.filter_append, List.map_append, apply_eq, apply_eq]

/-- A reported finding counts and has its severity already. -/
theorem apply_apply (fs : List Finding) : p.apply (p.apply fs) = p.apply fs := by
  have hfilter : (p.apply fs).filter (!p.ignores ·) = p.apply fs := by
    rw [List.filter_eq_self, apply_eq]
    intro f hf
    obtain ⟨g, hg, rfl⟩ := List.mem_map.1 hf
    exact (List.mem_filter.1 hg).2
  have hmap : (p.apply fs).map p.regrade = p.apply fs := by
    rw [apply_eq, List.map_map]
    exact List.map_congr_left fun f _ => p.regrade_regrade f
  rw [apply_eq p (p.apply fs), hfilter, hmap]

/-! ## Verdicts from reported findings -/

/-- The verdict as a reader of the reported findings would give it, of so many in total. -/
def judge (total : Nat) (reported : List Finding) : PolicyVerdict where
  pass := !reported.any fun f => p.isViolation f && p.failOn ≤ f.severity
  totalFindings := total
  effectiveFindings := reported.length
  nonCompliantFindings := reported.countP p.isViolation
  highestSeverity := (reported.map (·.severity)).max?
  failThreshold := p.failOn

/-- The verdict on findings is a judgement on those that are reported. -/
theorem evaluate_eq_judge (fs : List Finding) :
    p.evaluate fs = p.judge fs.length (p.apply fs) := by
  simp only [evaluate, judge, apply_eq, List.any_map, List.any_filter, List.length_map,
    ← List.countP_eq_length_filter, List.countP_map, List.map_map]
  rfl

theorem judge_total (m n : Nat) (reported : List Finding) :
    p.judge m reported = { p.judge n reported with totalFindings := m } := rfl

/-- An audit fails because of a finding that counts, is a violation and is severe enough. -/
theorem pass_eq_false_iff (fs : List Finding) :
    (p.evaluate fs).pass = false ↔ ∃ f ∈ fs, p.ignores f = false ∧
      p.isViolation f = true ∧ p.failOn ≤ p.severityOf f := by
  simp only [evaluate, Bool.not_eq_false', List.any_map, List.any_eq_true, List.mem_filter,
    Bool.not_eq_true', Function.comp_apply, decide_eq_true_eq, and_assoc]

theorem ignores_eq_false_iff (f : Finding) :
    p.ignores f = false ↔ f.category ∉ p.ignoreCategories := by
  rw [Bool.eq_false_iff, ignores, ne_eq, Std.ExtTreeSet.contains_iff_mem]

/-- A verdict says of reported findings what can be read off them. -/
structure Summarizes (v : PolicyVerdict) (reported : List Finding) : Prop where
  effective : v.effectiveFindings = reported.length
  highest_none : v.highestSeverity = none ↔ reported = []
  /-- The highest severity is one of theirs, and none is higher. -/
  highest_some : ∀ s, v.highestSeverity = some s ↔
    (∃ f ∈ reported, f.severity = s) ∧ ∀ f ∈ reported, f.severity ≤ s
  nonCompliant : v.nonCompliantFindings = reported.countP p.isViolation
  pass : v.pass = false ↔ ∃ f ∈ reported, p.isViolation f = true ∧ p.failOn ≤ f.severity

/-- A judgement says of reported findings what can be read off them. -/
theorem judge_summarizes (total : Nat) (reported : List Finding) :
    p.Summarizes (p.judge total reported) reported where
  effective := rfl
  highest_none := by simp [judge, List.max?_eq_none_iff]
  highest_some s := by simp [judge, List.max?_eq_some_iff]
  nonCompliant := rfl
  pass := by simp [judge]

/-- The verdict on findings agrees with what is reported of them. Applying the policy to the
reported findings changes nothing, and the verdict on them differs only in how many findings there
were in total. -/
theorem evaluate_summarizes_apply (fs : List Finding) :
    p.Summarizes (p.evaluate fs) (p.apply fs) ∧ p.apply (p.apply fs) = p.apply fs ∧
      p.evaluate (p.apply fs) =
        { p.evaluate fs with totalFindings := (p.apply fs).length } := by
  refine ⟨?_, p.apply_apply fs, ?_⟩
  · rw [evaluate_eq_judge]
    exact p.judge_summarizes _ _
  · rw [evaluate_eq_judge, apply_apply, evaluate_eq_judge]
    exact p.judge_total ..

end Policy

/-! ## Verdicts on several lists -/

/-- The verdict on two lists of findings together, from those on each of them. -/
def PolicyVerdict.join (v w : PolicyVerdict) : PolicyVerdict where
  pass := v.pass && w.pass
  totalFindings := v.totalFindings + w.totalFindings
  effectiveFindings := v.effectiveFindings + w.effectiveFindings
  nonCompliantFindings := v.nonCompliantFindings + w.nonCompliantFindings
  highestSeverity := max v.highestSeverity w.highestSeverity
  failThreshold := v.failThreshold

namespace Policy

variable (p : Policy)

theorem judge_append (m n : Nat) (fs gs : List Finding) :
    p.judge (m + n) (fs ++ gs) = (p.judge m fs).join (p.judge n gs) := by
  simp only [judge, PolicyVerdict.join, List.any_append, Bool.not_or, List.length_append,
    List.countP_append, List.map_append, Severity.max?_append]

theorem evaluate_append (fs gs : List Finding) :
    p.evaluate (fs ++ gs) = (p.evaluate fs).join (p.evaluate gs) := by
  simp only [evaluate_eq_judge, List.length_append, apply_append, judge_append]

/-- The verdict does not depend on the order of the findings. -/
theorem evaluate_perm {fs gs : List Finding} (h : fs.Perm gs) : p.evaluate fs = p.evaluate gs := by
  have happly : (p.apply fs).Perm (p.apply gs) := (h.filter _).map _
  simp only [evaluate_eq_judge, judge, h.length_eq, happly.any_eq, happly.length_eq,
    happly.countP_eq, Severity.max?_perm (happly.map _)]

/-! ## Looser policies -/

/-- The policy `q` is nowhere stricter than `p`: its threshold is not lower, it ignores what `p`
ignores, it does not fail on what is unresolved unless `p` does, and it overrides the severities of
the same categories, none of them with a higher one. -/
structure Looser (q p : Policy) : Prop where
  failOn : p.failOn ≤ q.failOn
  ignored : ∀ category ∈ p.ignoreCategories, category ∈ q.ignoreCategories
  unresolved : q.failOnUnresolved = true → p.failOnUnresolved = true
  overrides : ∀ category : String,
    Option.Rel (· ≤ ·) q.overrides[category]? p.overrides[category]?

section
variable {p q : Policy} {f : Finding}

theorem Looser.ignores (h : q.Looser p) (hf : q.ignores f = false) : p.ignores f = false := by
  rw [ignores_eq_false_iff] at hf ⊢
  exact fun hmem => hf (h.ignored _ hmem)

theorem Looser.isViolation (h : q.Looser p) (hf : q.isViolation f = true) :
    p.isViolation f = true := by
  rw [Policy.isViolation, Bool.or_eq_true, Bool.and_eq_true] at hf ⊢
  exact hf.imp_right (And.imp_left h.unresolved)

/-- No finding is more severe under a looser policy. -/
theorem Looser.severityOf_le (h : q.Looser p) (f : Finding) : q.severityOf f ≤ p.severityOf f := by
  unfold severityOf
  have hrel := h.overrides f.category
  generalize q.overrides[f.category]? = t at hrel ⊢
  generalize p.overrides[f.category]? = s at hrel ⊢
  cases hrel with
  | none => exact Std.le_refl f.severity
  | some hle => exact hle

/-- What passes under a policy passes under a looser one, with some of the findings too. -/
theorem Looser.pass (h : q.Looser p) {fs gs : List Finding} (hsub : gs ⊆ fs)
    (hpass : (p.evaluate fs).pass = true) : (q.evaluate gs).pass = true := by
  refine Bool.of_not_eq_false fun hfail => ?_
  obtain ⟨f, hf, hcounts, hviolation, hsevere⟩ := (q.pass_eq_false_iff gs).1 hfail
  -- the finding because of which the looser policy fails is one for the stricter policy, too
  have hfails : (p.evaluate fs).pass = false :=
    (p.pass_eq_false_iff fs).2 ⟨f, hsub hf, h.ignores hcounts, h.isViolation hviolation,
      Std.le_trans h.failOn (Std.le_trans hsevere (h.severityOf_le f))⟩
  cases hpass.symm.trans hfails

end

end Policy

end CryptoAudit
