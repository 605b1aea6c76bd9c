import Mathlib
import CryptoAudit.Proofs.Traversal
import CryptoAudit.Rule.Basic

/-!
# Which rules are accepted

A written rule goes through five checks, one after the other (`RuleCheck`). What they ask for is
said here of the written rule alone, with trimmed names and signed indices, whereas
`RawRule.check` converts one index before it looks at the other and compares what it got. The two
agree (`RawRule.outcome_check`): a rule passes all checks and is taken over field by field, or it is
refused with the words of the first check that it does not pass. A list of rules is accepted as a
whole or not at all.

Nothing is assumed of the compiler of patterns, which is a variable throughout: the last check is
that it gives an expression, and the words about a pattern end in those that it gives instead.
-/

namespace CryptoAudit

namespace Text

/-- The characters of a text without the blanks at its ends. -/
def trimmed (s : String) : List Char := (s.toList.dropWhile isBlank).rdropWhile isBlank

/-- A text is blank if and only if nothing is left of it after trimming. -/
theorem isBlankText_iff {s : String} : isBlankText s = true ↔ trimmed s = [] := by
  rw [isBlankText, List.all_eq_true, trimmed, List.rdropWhile_eq_nil_iff]
  constructor
  · intro h c hc
    exact h c ((List.dropWhile_sublist isBlank).subset hc)
  · intro h c hc
    rw [← List.takeWhile_append_dropWhile (p := isBlank) (l := s.toList), List.mem_append] at hc
    exact hc.elim List.mem_takeWhile_imp (h c)

end Text

/-! ## Checks -/

/-- The checks of a rule, in the order in which they are made. -/
inductive RuleCheck where
  | names
  | algorithmIndex
  | providerSign
  | collision
  | pattern

namespace RuleCheck

/-- The rule passes the check. -/
def Passes (compile : String → Except String Regex) (r : RawRule) : RuleCheck → Prop
  | .names => Text.trimmed r.declaringType ≠ [] ∧ Text.trimmed r.methodName ≠ []
  | .algorithmIndex => 0 ≤ r.algorithmIndex
  | .providerSign => ∀ i, r.providerIndex = some i → 0 ≤ i
  | .collision => r.providerIndex ≠ some r.algorithmIndex
  | .pattern => ∀ s, r.pattern = some s → ∃ regex, compile s = .ok regex

/-- The words about a rule that does not pass the check. -/
def words (compile : String → Except String Regex) (r : RawRule) : RuleCheck → String
  | .names => "declaring type and method name are required"
  | .algorithmIndex =>
    "algorithm_arg_index must be non-negative, got " ++ toString r.algorithmIndex
  | .providerSign =>
    "provider_arg_index must be non-negative, got " ++ toString (r.providerIndex.getD 0)
  | .collision =>
    "provider_arg_index " ++ toString r.algorithmIndex ++ " collides with algorithm_arg_index"
  | .pattern =>
    "invalid match_pattern: " ++ (r.pattern.bind fun s => failure? (compile s)).getD ""

/-- The order in which the checks are made. -/
def inOrder : List RuleCheck := [.names, .algorithmIndex, .providerSign, .collision, .pattern]

/-- The first check that the rule does not pass. -/
def FirstFailed (compile : String → Except String Regex) (r : RawRule) (c : RuleCheck) : Prop :=
  ∃ before after, inOrder = before ++ c :: after ∧ (∀ d ∈ before, d.Passes compile r) ∧
    ¬ c.Passes compile r

end RuleCheck

namespace RawRule

/-- The rule that a written one becomes. -/
structure Becomes (compile : String → Except String Regex) (r : RawRule) (rule : Rule) : Prop where
  id : rule.id = r.id.getD (r.category ++ ":" ++ r.declaringType ++ "." ++ r.methodName)
  category : rule.category = r.category
  declaringType : rule.declaringType = r.declaringType
  methodName : rule.methodName = r.methodName
  algorithmIndex : (rule.algorithmIndex : Int) = r.algorithmIndex
  providerIndex : rule.providerIndex.map Int.ofNat = r.providerIndex
  pattern : rule.pattern = r.pattern
  severity : rule.severity = r.severity
  description : rule.description = r.description
  regex : rule.regex = r.pattern.bind fun s => (compile s).toOption

/-- What a check of a rule may give: the rule passes all checks and is taken over, or it is refused
with the words of the first check that it does not pass. -/
inductive Outcome (compile : String → Except String Regex) (r : RawRule) :
    Except RuleDefect Rule → Prop where
  | accepted {rule : Rule} (hpasses : ∀ c : RuleCheck, c.Passes compile r)
      (hbecomes : r.Becomes compile rule) : Outcome compile r (.ok rule)
  | refused {c : RuleCheck} {d : RuleDefect} (hfirst : c.FirstFailed compile r)
      (hwords : ∀ label, RuleError.message ⟨label, d⟩ = c.words compile r) :
      Outcome compile r (.error d)

/-! ## The parts of a check -/

theorem toIndex?_eq_some_iff {i : Int} {n : Nat} : toIndex? i = some n ↔ i = Int.ofNat n := by
  cases i <;> simp [toIndex?]

theorem toIndex?_eq_none_iff {i : Int} : toIndex? i = none ↔ i < 0 := by
  cases i with
  | ofNat m => simp [toIndex?]
  | negSucc m => simp [toIndex?, Int.negSucc_lt_zero]

/-- The index of a provider is taken over, or it is negative, or it is that of the algorithm. -/
theorem checkProvider_cases (algorithm : Nat) (provider : Option Int) :
    (∃ p, checkProvider algorithm provider = .ok p ∧ p.map Int.ofNat = provider ∧
      provider ≠ some (Int.ofNat algorithm)) ∨
    (∃ i < 0, provider = some i ∧
      checkProvider algorithm provider = .error (.negativeProvider i)) ∨
    provider = some (Int.ofNat algorithm) ∧
      checkProvider algorithm provider = .error (.collision algorithm) := by
  cases provider with
  | none => exact .inl ⟨none, rfl, rfl, nofun⟩
  | some i =>
    cases i with
    | negSucc n => exact .inr (.inl ⟨_, Int.negSucc_lt_zero n, rfl, rfl⟩)
    | ofNat n =>
      have hcheck : checkProvider algorithm (some (Int.ofNat n)) =
          if n = algorithm then .error (.collision n) else .ok (some n) := rfl
      by_cases hn : n = algorithm
      · subst hn
        exact .inr (.inr ⟨rfl, by rw [hcheck, if_pos rfl]⟩)
      · exact .inl ⟨some n, by rw [hcheck, if_neg hn], rfl, by simpa using hn⟩

section
variable {compile : String → Except String Regex} {r : RawRule} {a : Nat}

/-- A pattern is compiled, or the compiler says why it cannot be. -/
theorem compilePattern_cases (compile : String → Except String Regex) (pattern : Option String) :
    (compilePattern compile pattern = .ok (pattern.bind fun s => (compile s).toOption) ∧
      ∀ s, pattern = some s → ∃ regex, compile s = .ok regex) ∨
    ∃ s reason, pattern = some s ∧ compile s = .error reason ∧
      compilePattern compile pattern = .error (.badPattern reason) := by
  cases pattern with
  | none => exact .inl ⟨rfl, nofun⟩
  | some s =>
    cases hs : compile s with
    | error reason => exact .inr ⟨s, reason, rfl, hs, by simp [compilePattern, hs]⟩
    | ok regex => exact .inl ⟨by simp [compilePattern, hs, Except.toOption], by simp [hs]⟩

/-- The names pass if and only if neither is blank. -/
theorem passes_names_iff : RuleCheck.Passes compile r .names ↔
    (Text.isBlankText r.declaringType || Text.isBlankText r.methodName) = false := by
  simp only [RuleCheck.Passes, ne_eq, ← Text.isBlankText_iff, Bool.or_eq_false_iff,
    Bool.not_eq_true]

theorem passes_algorithmIndex (ha : r.algorithmIndex = Int.ofNat a) :
    RuleCheck.Passes compile r .algorithmIndex := by
  rw [RuleCheck.Passes, ha]
  exact Int.natCast_nonneg a

/-- The provider passes the check of its sign if it is the integer of a natural number. -/
theorem passes_providerSign {p : Option Nat} (hp : p.map Int.ofNat = r.providerIndex) :
    RuleCheck.Passes compile r .providerSign := by
  intro i hi
  rw [← hp] at hi
  obtain ⟨n, -, rfl⟩ := Option.map_eq_some_iff.1 hi
  exact Int.natCast_nonneg n

/-- The words about a negative provider show the written index. -/
theorem words_providerSign {i : Int} (h : r.providerIndex = some i) :
    (RuleDefect.negativeProvider i).message = RuleCheck.words compile r .providerSign := by
  have hindex : toString i = toString (r.providerIndex.getD 0) := by rw [h, Option.getD_some]
  exact congrArg ("provider_arg_index must be non-negative, got " ++ ·) hindex

/-- The words about a collision show the index that both have. -/
theorem words_collision (h : r.algorithmIndex = Int.ofNat a) :
    (RuleDefect.collision a).message = RuleCheck.words compile r .collision := by
  have hindex : toString a = toString r.algorithmIndex := by
    rw [h]
    rfl
  exact congrArg ("provider_arg_index " ++ · ++ " collides with algorithm_arg_index") hindex

/-- The words about a pattern end in the words of the compiler. -/
theorem words_pattern {s reason : String} (hs : r.pattern = some s)
    (hreason : compile s = .error reason) (label : String) :
    RuleError.message ⟨label, .badPattern reason⟩ = RuleCheck.words compile r .pattern := by
  have hbind : (r.pattern.bind fun s => failure? (compile s)).getD "" = reason := by
    rw [hs, Option.bind_some, hreason]
    rfl
  have hcolon : "invalid match_pattern" ++ ": " = "invalid match_pattern: " := by simp
  calc RuleError.message ⟨label, .badPattern reason⟩
    _ = "invalid match_pattern" ++ ": " ++ reason := rfl
    _ = "invalid match_pattern: " ++ reason := congrArg (· ++ reason) hcolon
    _ = RuleCheck.words compile r .pattern := congrArg ("invalid match_pattern: " ++ ·) hbind.symm

/-! ## One rule

After the names and the index of the algorithm have passed, the outcome is decided by the provider
and then by the pattern, with one lemma for each way in which they end.
-/

/-- What is left to check of a rule with names and an index for the algorithm. -/
theorem check_of_index (hnames : RuleCheck.Passes compile r .names)
    (ha : r.algorithmIndex = Int.ofNat a) :
    r.check compile = do
      let p ← checkProvider a r.providerIndex
      let regex ← compilePattern compile r.pattern
      return ⟨r.id.getD (r.category ++ ":" ++ r.declaringType ++ "." ++ r.methodName), r.category,
        r.declaringType, r.methodName, a, p, r.pattern, r.severity, r.description, regex⟩ := by
  simp only [check, passes_names_iff.1 hnames, toIndex?_eq_some_iff.2 ha]
  rfl

/-- A rule whose provider is negative is refused for it. -/
theorem outcome_of_negativeProvider (hnames : RuleCheck.Passes compile r .names)
    (ha : r.algorithmIndex = Int.ofNat a) {i : Int} (hi : i < 0)
    (hprovider : r.providerIndex = some i) :
    Outcome compile r (.error (.negativeProvider i)) := by
  have hnegative : ¬ RuleCheck.Passes compile r .providerSign := fun h =>
    absurd (h i hprovider) (Int.not_le.2 hi)
  have hfirst : RuleCheck.FirstFailed compile r .providerSign :=
    ⟨[.names, .algorithmIndex], [.collision, .pattern], rfl,
      by simp [hnames, passes_algorithmIndex ha], hnegative⟩
  exact .refused hfirst fun _ => words_providerSign hprovider

/-- A rule whose provider is the argument of the algorithm is refused for it. -/
theorem outcome_of_collision (hnames : RuleCheck.Passes compile r .names)
    (ha : r.algorithmIndex = Int.ofNat a) (hprovider : r.providerIndex = some (Int.ofNat a)) :
    Outcome compile r (.error (.collision a)) := by
  have hsign : RuleCheck.Passes compile r .providerSign :=
    passes_providerSign (p := some a) hprovider.symm
  have hcollides : ¬ RuleCheck.Passes compile r .collision := by
    rw [RuleCheck.Passes, ha]
    exact not_not.2 hprovider
  have hfirst : RuleCheck.FirstFailed compile r .collision :=
    ⟨[.names, .algorithmIndex, .providerSign], [.pattern], rfl,
      by simp [hnames, passes_algorithmIndex ha, hsign], hcollides⟩
  exact .refused hfirst fun _ => words_collision ha

/-- A rule that passes all checks before that of the pattern is refused if the compiler refuses its
pattern. -/
theorem outcome_of_badPattern (hnames : RuleCheck.Passes compile r .names)
    (hindex : RuleCheck.Passes compile r .algorithmIndex)
    (hsign : RuleCheck.Passes compile r .providerSign)
    (hapart : RuleCheck.Passes compile r .collision) {s reason : String}
    (hs : r.pattern = some s) (hreason : compile s = .error reason) :
    Outcome compile r (.error (.badPattern reason)) := by
  have hinvalid : ¬ RuleCheck.Passes compile r .pattern := by
    intro h
    obtain ⟨regex, hregex⟩ := h s hs
    rw [hreason] at hregex
    cases hregex
  have hfirst : RuleCheck.FirstFailed compile r .pattern :=
    ⟨[.names, .algorithmIndex, .providerSign, .collision], [], rfl,
      by simp [hnames, hindex, hsign, hapart], hinvalid⟩
  exact .refused hfirst (words_pattern hs hreason)

/-- The outcome for a rule with names and an index for the algorithm. -/
theorem outcome_of_index (hnames : RuleCheck.Passes compile r .names)
    (ha : r.algorithmIndex = Int.ofNat a) : Outcome compile r (r.check compile) := by
  rw [check_of_index hnames ha]
  rcases checkProvider_cases a r.providerIndex with
    ⟨p, hp, hmap, hne⟩ | ⟨i, hi, hprovider, hp⟩ | ⟨hprovider, hp⟩
  · have hindex : RuleCheck.Passes compile r .algorithmIndex := passes_algorithmIndex ha
    have hsign : RuleCheck.Passes compile r .providerSign := passes_providerSign hmap
    have hapart : RuleCheck.Passes compile r .collision := by
      rw [RuleCheck.Passes, ha]
      exact hne
    rcases compilePattern_cases compile r.pattern with
      ⟨hregex, hpattern⟩ | ⟨s, reason, hs, hreason, hregex⟩
    · rw [hp, hregex]
      refine .accepted (fun c => ?_) ⟨rfl, rfl, rfl, rfl, ha.symm, hmap, rfl, rfl, rfl, rfl⟩
      cases c with
      | names => exact hnames
      | algorithmIndex => exact hindex
      | providerSign => exact hsign
      | collision => exact hapart
      | pattern => exact hpattern
    · rw [hp, hregex]
      exact outcome_of_badPattern hnames hindex hsign hapart hs hreason
  · rw [hp]
    exact outcome_of_negativeProvider hnames ha hi hprovider
  · rw [hp]
    exact outcome_of_collision hnames ha hprovider

/-- A rule whose algorithm has a negative index is refused for it. -/
theorem outcome_of_negativeAlgorithm (hnames : RuleCheck.Passes compile r .names)
    (ha : toIndex? r.algorithmIndex = none) : Outcome compile r (r.check compile) := by
  have hnegative : ¬ RuleCheck.Passes compile r .algorithmIndex :=
    Int.not_le.2 (toIndex?_eq_none_iff.1 ha)
  have hcheck : r.check compile = .error (.negativeAlgorithm r.algorithmIndex) := by
    simp only [check, passes_names_iff.1 hnames, ha]
    rfl
  have hfirst : RuleCheck.FirstFailed compile r .algorithmIndex :=
    ⟨[.names], [.providerSign, .collision, .pattern], rfl, by simp [hnames], hnegative⟩
  rw [hcheck]
  exact .refused hfirst fun _ => rfl

/-- A rule with a blank name is refused for it. -/
theorem outcome_of_missingName (hnames : ¬ RuleCheck.Passes compile r .names) :
    Outcome compile r (r.check compile) := by
  have hblank := hnames
  rw [passes_names_iff, Bool.not_eq_false] at hblank
  have hcheck : r.check compile = .error .missingName := by
    simp only [check, hblank]
    rfl
  have hfirst : RuleCheck.FirstFailed compile r .names :=
    ⟨[], [.algorithmIndex, .providerSign, .collision, .pattern], rfl, List.forall_mem_nil _, hnames⟩
  rw [hcheck]
  exact .refused hfirst fun _ => rfl

/-- The outcome of a check is what the checks say, one after the other. -/
theorem outcome_check (compile : String → Except String Regex) (r : RawRule) :
    Outcome compile r (r.check compile) := by
  by_cases hnames : RuleCheck.Passes compile r .names
  · cases ha : toIndex? r.algorithmIndex with
    | some a => exact outcome_of_index hnames (toIndex?_eq_some_iff.1 ha)
    | none => exact outcome_of_negativeAlgorithm hnames ha
  · exact outcome_of_missingName hnames

/-- A rule is accepted if and only if it passes all checks. -/
theorem failure?_check_eq_none_iff :
    failure? (r.check compile) = none ↔ ∀ c : RuleCheck, c.Passes compile r := by
  have h := outcome_check compile r
  generalize r.check compile = x at h
  cases h with
  | accepted hpasses _ => exact ⟨fun _ => hpasses, fun _ => rfl⟩
  | refused hfirst _ =>
    obtain ⟨_, _, _, _, hfails⟩ := hfirst
    exact ⟨nofun, fun hpasses => absurd (hpasses _) hfails⟩

/-- A rule that is accepted is what the written one becomes. -/
theorem becomes_of_check {rule : Rule} (h : r.check compile = .ok rule) :
    r.Becomes compile rule := by
  have houtcome := outcome_check compile r
  rw [h] at houtcome
  cases houtcome with
  | accepted _ hbecomes => exact hbecomes

/-- A rule that is refused fails a check first, and the message is in the words of this check. -/
theorem firstFailed_of_check {d : RuleDefect} (h : r.check compile = .error d) :
    ∃ c : RuleCheck, c.FirstFailed compile r ∧
      ∀ label, RuleError.message ⟨label, d⟩ = c.words compile r := by
  have houtcome := outcome_check compile r
  rw [h] at houtcome
  cases houtcome with
  | refused hfirst hwords => exact ⟨_, hfirst, hwords⟩

/-! ## Lists of rules -/

theorem validate_eq_ok_iff {i : Nat} {rule : Rule} :
    r.validate compile i = .ok rule ↔ r.check compile = .ok rule := by
  rw [validate]
  cases r.check compile <;> simp

theorem failure?_validate (compile : String → Except String Regex) (r : RawRule) (i : Nat) :
    failure? (r.validate compile i) = (failure? (r.check compile)).map (⟨r.label i, ·⟩) := by
  rw [validate]
  cases r.check compile <;> rfl

/-- At any position, a rule is accepted if and only if it passes all checks. -/
theorem failure?_validate_eq_none_iff (r : RawRule) (i : Nat) :
    failure? (r.validate compile i) = none ↔ ∀ c : RuleCheck, c.Passes compile r := by
  rw [failure?_validate, Option.map_eq_none_iff, failure?_check_eq_none_iff]

/-- The error about a rule has its label, and the words of the first check that it does not
pass. -/
theorem firstFailed_of_validate {i : Nat} {e : RuleError}
    (h : failure? (r.validate compile i) = some e) :
    ∃ c : RuleCheck, c.FirstFailed compile r ∧ e.label = r.label i ∧
      e.message = c.words compile r := by
  rw [failure?_validate, Option.map_eq_some_iff] at h
  obtain ⟨d, hd, rfl⟩ := h
  obtain ⟨c, hfirst, hwords⟩ := firstFailed_of_check (failure?_eq_some_iff.1 hd)
  exact ⟨c, hfirst, rfl, hwords _⟩

end

end RawRule

namespace RuleSet

section
variable (compile : String → Except String Regex)

theorem ofRawWith_eq (raw : List RawRule) :
    ofRawWith compile raw =
      (raw.zipIdx.mapM fun x => x.1.validate compile x.2) >>= fun rules => pure ⟨rules⟩ := rfl

/-- The error about a list of rules is that about the first one that is refused. -/
theorem failure?_ofRawWith (raw : List RawRule) :
    failure? (ofRawWith compile raw) =
      raw.zipIdx.findSome? fun x => failure? (x.1.validate compile x.2) := by
  rw [ofRawWith_eq, ← failure?_mapM]
  cases raw.zipIdx.mapM fun x => x.1.validate compile x.2 <;> rfl

/-- The rules of a set that was accepted are what the written ones become, in order. -/
theorem becomes_of_ofRawWith {raw : List RawRule} {rules : RuleSet}
    (h : ofRawWith compile raw = .ok rules) :
    List.Forall₂ (RawRule.Becomes compile) raw rules.rules := by
  have hmap : (raw.zipIdx.mapM fun x => x.1.validate compile x.2) = .ok rules.rules := by
    rw [ofRawWith_eq] at h
    cases hrules : raw.zipIdx.mapM fun x => x.1.validate compile x.2 with
    | error e =>
      rw [hrules] at h
      cases h
    | ok list =>
      rw [hrules] at h
      cases h
      rfl
  rw [mapM_eq_ok_iff] at hmap
  rw [← List.zipIdx_map_fst 0 raw, List.forall₂_map_left_iff]
  exact hmap.imp fun _ _ hvalidate =>
    RawRule.becomes_of_check (RawRule.validate_eq_ok_iff.1 hvalidate)

end

/-- **A list of rules is accepted as a whole or not at all.** With any compiler of patterns, a list
is accepted if and only if every rule passes all checks. The accepted rules are those of the list,
in order, with all that is written. Otherwise the error is about the first rule that does not pass:
it has the label of this rule, and its message is in the words of the first check that the rule does
not pass, which for a pattern end in the words of the compiler. -/
theorem ofRawWith_all_or_nothing (compile : String → Except String Regex) (raw : List RawRule) :
    ((∃ rules, ofRawWith compile raw = .ok rules) ↔
      ∀ r ∈ raw, ∀ c : RuleCheck, c.Passes compile r) ∧
    (∀ rules, ofRawWith compile raw = .ok rules → rules.rules.length = raw.length ∧
      List.Forall₂ (RawRule.Becomes compile) raw rules.rules) ∧
    ∀ e, ofRawWith compile raw = .error e → ∃ (i : Nat) (r : RawRule) (c : RuleCheck),
      raw[i]? = some r ∧ c.FirstFailed compile r ∧
      (∀ j < i, ∀ earlier, raw[j]? = some earlier → ∀ c : RuleCheck, c.Passes compile earlier) ∧
      e.label = r.id.getD ("#" ++ toString i ++ " " ++ r.declaringType ++ "." ++ r.methodName) ∧
      e.message = c.words compile r := by
  refine ⟨?_, fun rules h => ?_, fun e h => ?_⟩
  · rw [← failure?_eq_none_iff, failure?_ofRawWith,
      findSome?_zipIdx_eq_none_iff RawRule.failure?_validate_eq_none_iff]
  · have hbecomes := becomes_of_ofRawWith compile h
    exact ⟨hbecomes.length_eq.symm, hbecomes⟩
  · rw [← failure?_eq_some_iff, failure?_ofRawWith, findSome?_zipIdx_eq_some_iff] at h
    obtain ⟨i, r, hr, herror, hearlier⟩ := h
    obtain ⟨c, hfirst, hlabel, hwords⟩ := RawRule.firstFailed_of_validate herror
    refine ⟨i, r, c, hr, hfirst, fun j hj earlier hj' => ?_, hlabel, hwords⟩
    exact (RawRule.failure?_validate_eq_none_iff earlier j).1 (hearlier j hj earlier hj')

/-- The second rule is wrong in two ways and the third in one; what is reported is that the provider
of the second is negative. -/
example :
    ofRaw [
      ⟨none, "cipher", "javax.crypto.Cipher", "getInstance", 0, some 1, none, .high, ""⟩,
      ⟨none, "mac", "javax.crypto.Mac", "init", 2, some (-2), some "(", .high, ""⟩,
      ⟨some "R3", "hash", " ", "digest", 0, none, none, .low, ""⟩] =
      .error ⟨"#1 javax.crypto.Mac.init", .negativeProvider (-2)⟩ := by
  decide +kernel

/-- With a compiler that refuses all patterns, its words are part of the message. -/
example :
    (failure? (ofRawWith (fun s => .error ("cannot read " ++ s)) [
      ⟨some "R1", "mac", "javax.crypto.Mac", "init", 0, none, none, .high, ""⟩,
      ⟨some "R2", "hash", "Digest", "of", 0, none, some "^MD5$", .low, ""⟩])).map (·.message) =
      some "invalid match_pattern: cannot read ^MD5$" := by
  decide +kernel

end RuleSet

end CryptoAudit
