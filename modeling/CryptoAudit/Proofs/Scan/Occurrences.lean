import CryptoAudit.Proofs.Scan.Soundness

/-!
# A scan makes one finding for each occurrence

`occurrences` goes through all classes, their methods, the call sites of a method and the whole rule
set, and keeps the rules that apply. A scan looks the rules up in an index, yet its findings are
those of the occurrences, each once and in this order, and each finding records its occurrence
(`scanProgram_records_occurrences`).

Methods may be scanned at the same time, so their findings may be finished in any order. A finished
method puts its findings at its own position (`Batch.deliver`). Positions are distinct, so that what
one method has delivered is not changed by the others (`getElem?_foldl_deliver_of_mem`), and all of
them together give the findings of the scan whatever the order.
-/

namespace CryptoAudit.Scan

open Resolution

/-! ## Occurrences -/

/-- The rules that watch the method of a call site and find their algorithm among its arguments. -/
def watching (rules : RuleSet) (site : CallSite) : List Rule :=
  rules.rules.filter fun rule =>
    rule.declaringType = site.declaringType ∧ rule.methodName = site.methodName ∧
      rule.algorithmIndex < site.arguments.length

/-- The occurrences in a method, in the order of its call sites and of the rules. -/
def occurrencesIn (rules : RuleSet) (method : Method) : List Occurrence :=
  match method.isConcrete, method.body with
  | true, some sites =>
    sites.zipIdx.flatMap fun (site, index) => (watching rules site).map (⟨·, method, index, site⟩)
  | _, _ => []

/-- The occurrences in a program, in the order of classes and declarations. Methods that a class
lists and that do not exist have none. -/
def occurrences (p : Program) (rules : RuleSet) : List Occurrence :=
  p.classes.flatMap fun c =>
    c.methods.flatMap fun id => p.methods[id]?.toList.flatMap (occurrencesIn rules)

/-- What a finding says of its occurrence. -/
structure Records (p : Program) (bound : DepthBound) (o : Occurrence) (f : Finding) : Prop where
  ruleId : f.ruleId = o.rule.id
  category : f.category = o.rule.category
  severity : f.severity = o.rule.severity
  description : f.description = o.rule.description
  className : f.className = o.method.className
  methodSignature : f.methodSignature = o.method.signature
  api : f.api = o.site.declaringType ++ "." ++ o.site.methodName
  location : f.location = o.site.location
  algorithm : ∃ arg, o.site.arguments[o.rule.algorithmIndex]? = some arg ∧
    resolve p bound o.method.id arg = ⟨f.algorithm, f.provenance, f.trace⟩
  flagged : f.flagged = true ↔
    f.provenance ≠ .unresolved ∧ o.rule.matchesAlgorithm f.algorithm = true
  provider : Provider.evaluate o.site o.rule = (f.provider, f.verdict)

/-- The finding that is made at an occurrence. -/
def Occurrence.finding (p : Program) (bound : DepthBound) (o : Occurrence) : Finding :=
  Scan.finding o.rule o.method o.site (algorithmAt p bound o.method o.site o.rule)

section
variable {p : Program} {rules : RuleSet} {bound : DepthBound} {o : Occurrence}

/-- At an occurrence, the call has the argument for the algorithm. -/
theorem algorithmIndex_lt_of_mem_occurrencesIn {method : Method}
    (h : o ∈ occurrencesIn rules method) : o.rule.algorithmIndex < o.site.arguments.length := by
  unfold occurrencesIn at h
  split at h
  next =>
    obtain ⟨⟨site, index⟩, -, ho⟩ := List.mem_flatMap.1 h
    obtain ⟨rule, hrule, rfl⟩ := List.mem_map.1 ho
    exact (of_decide_eq_true (List.mem_filter.1 hrule).2).2.2
  next => cases h

/-- The finding that is made at an occurrence records it. -/
theorem records_finding (h : o.rule.algorithmIndex < o.site.arguments.length) :
    Records p bound o (o.finding p bound) := by
  have harg := List.getElem?_eq_getElem h
  have halgorithm : algorithmAt p bound o.method o.site o.rule =
      resolve p bound o.method.id o.site.arguments[o.rule.algorithmIndex] := by
    rw [algorithmAt, harg]
  refine ⟨rfl, rfl, rfl, rfl, rfl, rfl, rfl, rfl, ⟨_, harg, halgorithm.symm⟩, ?_, rfl⟩
  simp [Occurrence.finding, finding, ResolvedValue.isResolved]

/-- The index of rules finds the rules that watch a call, in the order of the set. -/
theorem matching_ofRules_eq_watching (rules : RuleSet) (site : CallSite) :
    (RuleIndex.ofRules rules).matching site = watching rules site := by
  rw [RuleIndex.matching_ofRules, watching]
  refine List.filter_congr fun rule _ => ?_
  rw [Bool.eq_iff_iff]
  simp only [Rule.appliesTo, Bool.and_eq_true, beq_iff_eq, decide_eq_true_eq, and_assoc]
  rfl

/-- The findings in a method are those of its occurrences. -/
theorem scanMethod_ofRules (method : Method) :
    scanMethod p (.ofRules rules) bound method =
      (occurrencesIn rules method).map (·.finding p bound) := by
  unfold scanMethod Method.analyzableBody occurrencesIn
  cases method.isConcrete with
  | false => rfl
  | true =>
    cases method.body with
    | none => rfl
    | some sites =>
      have hsites := List.zipIdx_map_fst 0 sites
      simp only [if_true, Option.getD_some, matching_ofRules_eq_watching]
      rw [← hsites, List.flatMap_map, hsites, List.map_flatMap]
      simp only [List.map_map]
      rfl

/-- The findings in a program are those of its occurrences. -/
theorem scanWithin_eq_map_occurrences (p : Program) (rules : RuleSet) (bound : DepthBound) :
    scanWithin p rules bound = (occurrences p rules).map (·.finding p bound) := by
  have hmethods : p.methodsInOrder =
      p.classes.flatMap fun c => c.methods.flatMap fun id => p.methods[id]?.toList := by
    rw [Program.methodsInOrder, List.filterMap_flatMap]
    refine congrArg (p.classes.flatMap ·) (funext fun c => ?_)
    exact List.filterMap_eq_flatMap_toList _ _
  have hscan : scanMethod p (.ofRules rules) bound =
      fun method => (occurrencesIn rules method).map (·.finding p bound) :=
    funext scanMethod_ofRules
  simp only [scanWithin, hmethods, hscan, occurrences, List.flatMap_assoc, List.map_flatMap]

end

/-! ## Methods that are finished in any order -/

/-- The findings of a method that has been scanned, with its position among the methods. -/
structure Batch where
  position : Nat
  findings : List Finding

/-- The batches of a program, in the order of the methods. -/
def batches (p : Program) (rules : RuleSet) (bound : DepthBound) : List Batch :=
  p.methodsInOrder.zipIdx.map fun (method, position) =>
    ⟨position, scanMethod p (.ofRules rules) bound method⟩

/-- Puts the findings of a method at its position. -/
def Batch.deliver (slots : List (List Finding)) (b : Batch) : List (List Finding) :=
  slots.set b.position b.findings

/-- What the methods have found, after they have been finished in this order. -/
def gather (methods : Nat) (finished : List Batch) : List (List Finding) :=
  finished.foldl Batch.deliver (List.replicate methods [])

/-- Delivering findings keeps the number of slots. -/
theorem length_foldl_deliver (finished : List Batch) (slots : List (List Finding)) :
    (finished.foldl Batch.deliver slots).length = slots.length := by
  induction finished generalizing slots with
  | nil => rfl
  | cons b finished ih => rw [List.foldl_cons, ih, Batch.deliver, List.length_set]

/-- A position to which nothing is delivered stays as it is. -/
theorem getElem?_foldl_deliver_of_notMem {finished : List Batch} {i : Nat}
    (h : i ∉ finished.map (·.position)) (slots : List (List Finding)) :
    (finished.foldl Batch.deliver slots)[i]? = slots[i]? := by
  induction finished generalizing slots with
  | nil => rfl
  | cons b finished ih =>
    rw [List.map_cons, List.mem_cons, not_or] at h
    rw [List.foldl_cons, ih h.2, Batch.deliver, List.getElem?_set_ne (Ne.symm h.1)]

/-- What a method delivers stays at its position. -/
theorem getElem?_foldl_deliver_of_mem {finished : List Batch} {b : Batch} (hb : b ∈ finished)
    (hnodup : (finished.map (·.position)).Nodup) {slots : List (List Finding)}
    (hlt : b.position < slots.length) :
    (finished.foldl Batch.deliver slots)[b.position]? = some b.findings := by
  induction finished generalizing slots with
  | nil => cases hb
  | cons first finished ih =>
    rw [List.map_cons, List.nodup_cons] at hnodup
    rw [List.foldl_cons]
    rcases List.mem_cons.1 hb with rfl | hb
    · rw [getElem?_foldl_deliver_of_notMem hnodup.1, Batch.deliver, List.getElem?_set_self hlt]
    · exact ih hb hnodup.2 (by rwa [Batch.deliver, List.length_set])

/-- Batches that are delivered in any order come to be in the order of the methods. -/
theorem flatten_gather {p : Program} {rules : RuleSet} {bound : DepthBound} {finished : List Batch}
    (h : finished.Perm (batches p rules bound)) :
    (gather p.methodsInOrder.length finished).flatten = scanWithin p rules bound := by
  have hpositions : (batches p rules bound).map (·.position) =
      List.range p.methodsInOrder.length := by
    rw [batches, List.map_map, List.range_eq_range']
    exact List.zipIdx_map_snd 0 p.methodsInOrder
  have hnodup : (finished.map (·.position)).Nodup := by
    rw [(h.map _).nodup_iff, hpositions]
    exact List.nodup_range
  have hslots : gather p.methodsInOrder.length finished =
      p.methodsInOrder.map (scanMethod p (.ofRules rules) bound) := by
    refine List.ext_getElem? fun i => ?_
    cases hmethod : p.methodsInOrder[i]? with
    | none =>
      have hle := List.getElem?_eq_none_iff.1 hmethod
      rw [List.getElem?_map, hmethod, List.getElem?_eq_none_iff.2, Option.map_none]
      rw [gather, length_foldl_deliver, List.length_replicate]
      exact hle
    | some method =>
      have hmem : (⟨i, scanMethod p (.ofRules rules) bound method⟩ : Batch) ∈ finished :=
        h.mem_iff.2 (List.mem_map.2 ⟨(method, i), List.mk_mem_zipIdx_iff_getElem?.2 hmethod, rfl⟩)
      have hlt : i < (List.replicate p.methodsInOrder.length ([] : List Finding)).length := by
        rw [List.length_replicate]
        exact (List.getElem?_eq_some_iff.1 hmethod).1
      rw [List.getElem?_map, hmethod]
      exact getElem?_foldl_deliver_of_mem hmem hnodup hlt
  rw [hslots, scanWithin, List.flatMap_def]

/-- The findings of a scan record the occurrences in the program, one each and in order. The same
findings result in whatever order the methods are finished. -/
theorem scanProgram_records_occurrences (p : Program) (rules : RuleSet)
    (settings : AnalysisSettings) :
    List.Forall₂ (Records p settings.depthBound) (occurrences p rules)
        (scanProgram p rules settings) ∧
      ∀ finished, finished.Perm (batches p rules settings.depthBound) →
        (gather p.methodsInOrder.length finished).flatten = scanProgram p rules settings := by
  refine ⟨?_, fun finished h => flatten_gather h⟩
  rw [scanProgram, scanWithin_eq_map_occurrences, List.forall₂_map_right_iff, List.forall₂_same]
  intro o ho
  obtain ⟨c, -, ho⟩ := List.mem_flatMap.1 ho
  obtain ⟨id, -, ho⟩ := List.mem_flatMap.1 ho
  obtain ⟨method, -, ho⟩ := List.mem_flatMap.1 ho
  exact records_finding (algorithmIndex_lt_of_mem_occurrencesIn ho)

/-- The program of `wrappedSources` with a class that lists one method twice and a method that does
not exist. -/
def staleProgram : Program := { wrappedProgram with classes := [⟨"App", none, [1, 7, 0, 1]⟩] }

/-- A method that is listed twice is scanned twice, also if the last methods are finished first. -/
theorem scanProgram_records_occurrences_stale :
    (batches staleProgram digestRules none).reverse.Perm (batches staleProgram digestRules none) ∧
      (scanProgram staleProgram digestRules ⟨0, true⟩).map (fun f => (f.algorithm, f.trace)) =
        [("MD5", ["App.run", "App.digest"]), ("MD5", ["App.run", "App.digest"])] ∧
      (gather staleProgram.methodsInOrder.length
        (batches staleProgram digestRules none).reverse).flatten =
          scanProgram staleProgram digestRules ⟨0, true⟩ :=
  ⟨List.reverse_perm _, by cbv,
    (scanProgram_records_occurrences staleProgram digestRules ⟨0, true⟩).2 _ (List.reverse_perm _)⟩

end CryptoAudit.Scan
