import Mathlib.Data.List.Basic
import CryptoAudit.Rule.Index

/-!
# What a rule index holds

Under each key the index holds the rules that watch this method, in the order of the rule set
(`getD_foldl_add`). The rules that are found for a call site are therefore those of the set that
apply to it, in the order of the set (`matching_ofRules`). Rules may be repeated; the positions at
which they stand tell them apart (`map_getElem?_findIdxs`).
-/

namespace CryptoAudit.RuleIndex

/-- Each key gets the rules that watch its method, after those that it has. -/
theorem getD_foldl_add (rules : List Rule) (m : Std.HashMap (String × String) (List Rule))
    (key : String × String) :
    (rules.foldl add m).getD key [] =
      m.getD key [] ++ rules.filter fun r => (r.declaringType, r.methodName) == key := by
  induction rules generalizing m with
  | nil => simp
  | cons r rules ih =>
    rw [List.foldl_cons, ih, add, Std.HashMap.getD_insert, List.filter_cons]
    by_cases h : ((r.declaringType, r.methodName) == key) = true
    · rw [if_pos h, if_pos h, eq_of_beq h, List.append_assoc, List.singleton_append]
    · rw [if_neg h, if_neg h]

/-- A rule applies to the calls of its method that have the argument for the algorithm. -/
theorem appliesTo_iff {rule : Rule} {site : CallSite} :
    rule.appliesTo site = true ↔ rule.declaringType = site.declaringType ∧
      rule.methodName = site.methodName ∧ rule.algorithmIndex < site.arguments.length := by
  simp only [Rule.appliesTo, Bool.and_eq_true, beq_iff_eq, decide_eq_true_eq, and_assoc]
  rfl

/-- The rules that are found for a call site are those of the set that apply to it, in order. -/
theorem matching_ofRules (rules : RuleSet) (site : CallSite) :
    (ofRules rules).matching site = rules.rules.filter (·.appliesTo site) := by
  rw [matching, ofRules, getD_foldl_add, Std.HashMap.getD_empty, List.nil_append,
    List.filter_filter]
  refine List.filter_congr fun rule _ => ?_
  -- A rule that applies to the call site watches the method under whose key it is looked up.
  rw [Bool.and_eq_left_iff_imp]
  intro happlies
  obtain ⟨htype, hmethod, -⟩ := appliesTo_iff.1 happlies
  exact beq_iff_eq.2 (Prod.ext htype hmethod)

theorem mem_matching_ofRules {rules : RuleSet} {site : CallSite} {rule : Rule} :
    rule ∈ (ofRules rules).matching site ↔ rule ∈ rules.rules ∧ rule.appliesTo site = true := by
  rw [matching_ofRules, List.mem_filter]

/-- The items at the positions where a property holds are those that have it, in order. -/
theorem map_getElem?_findIdxs {α : Type} (q : α → Bool) (l : List α) :
    (l.findIdxs q).map (l[·]?) = (l.filter q).map some := by
  refine List.ext_getElem ?_ fun i hi hi' => ?_
  · rw [List.length_map, List.length_map, List.length_findIdxs, List.countP_eq_length_filter]
  · rw [List.getElem_map, List.getElem_map, List.getElem_filter_eq_getElem_getElem_findIdxs]
    exact List.getElem?_eq_getElem _

/-- What is found for a call site is exactly the rules of the set that watch its method and whose
algorithm it passes: each as often as it stands in the set, and in the order of the positions at
which they stand. -/
theorem matching_refines_filter (rules : RuleSet) (site : CallSite) :
    (ofRules rules).matching site = rules.rules.filter (·.appliesTo site) ∧
    (∀ rule : Rule, rule.appliesTo site = true ↔ rule.declaringType = site.declaringType ∧
      rule.methodName = site.methodName ∧ rule.algorithmIndex < site.arguments.length) ∧
    (∀ rule, ((ofRules rules).matching site).count rule =
      if rule.appliesTo site then rules.rules.count rule else 0) ∧
    ∃ positions : List Nat, positions.Pairwise (· < ·) ∧
      (∀ i, i ∈ positions ↔ ∃ rule, rules.rules[i]? = some rule ∧ rule.appliesTo site = true) ∧
      positions.map (rules.rules[·]?) = ((ofRules rules).matching site).map some := by
  rw [matching_ofRules]
  refine ⟨rfl, fun _ => appliesTo_iff, fun rule => ?_,
    rules.rules.findIdxs (·.appliesTo site), List.pairwise_findIdxs, fun i => ?_,
    map_getElem?_findIdxs ..⟩
  · split
    next happlies => exact List.count_filter happlies
    next happlies => exact List.count_eq_zero.2 fun hmem => happlies (List.mem_filter.1 hmem).2
  · rw [List.mem_findIdxs_iff_exists_getElem_pos]
    constructor
    · rintro ⟨hi, happlies⟩
      exact ⟨_, List.getElem?_eq_getElem hi, happlies⟩
    · rintro ⟨rule, hrule, happlies⟩
      obtain ⟨hi, rfl⟩ := List.getElem?_eq_some_iff.1 hrule
      exact ⟨hi, happlies⟩

end CryptoAudit.RuleIndex
