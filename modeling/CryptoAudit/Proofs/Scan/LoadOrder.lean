import CryptoAudit.Proofs.Model.Reordering
import CryptoAudit.Proofs.Scan.Soundness

/-!
# The order in which models are loaded

Models may be loaded in any order, also the classes within a file. The findings are the same but for
their order and what `Finding.orderFree` leaves out: where an algorithm is traced, which of several
literals the search meets first, with its trace and flag; and the source file of a class that is
declared more than once (`scanProgram_perm_of_reordered`). In particular an algorithm that is
resolved for one order is resolved for every other.

The methods of the two programs correspond by position. Corresponding methods have the same call
sites up to source files (`SameCall`), and the algorithms at these are known in the same way, since
the one program renames the other (`sameKnowledge_algorithmAt`).
-/

namespace CryptoAudit

/-- The location, with its file only if that is kept. -/
def SourceLocation.keepFile (keep : Bool) (l : SourceLocation) : SourceLocation :=
  { l with file := if keep then l.file else none }

/-- The finding without what may depend on the order of models: which value of a traced algorithm
is found, with its trace and flag, and the files of classes that `keepsFile` leaves out. -/
def Finding.orderFree (keepsFile : String → Bool) (f : Finding) : Finding :=
  { f with
    algorithm := if f.provenance = .tracedRecursively then "" else f.algorithm
    trace := if f.provenance = .tracedRecursively then [] else f.trace
    flagged := if f.provenance = .tracedRecursively then false else f.flagged
    location := f.location.map (·.keepFile (keepsFile f.className)) }

namespace Scan

open Model Resolution

/-- The findings at a call site of a method. -/
def findingsAt (p : Program) (index : RuleIndex) (bound : DepthBound) (method : Method)
    (site : CallSite) : List Finding :=
  (index.matching site).map fun rule =>
    finding rule method site (algorithmAt p bound method site rule)

theorem scanMethod_eq_flatMap (p : Program) (index : RuleIndex) (bound : DepthBound)
    (method : Method) : scanMethod p index bound method =
      (method.analyzableBody.getD []).flatMap (findingsAt p index bound method) := rfl

/-- What is known of a value is the same, or it is traced in both cases. -/
def SameKnowledge (v w : ResolvedValue) : Prop :=
  (v.provenance = .tracedRecursively ∧ w.provenance = .tracedRecursively) ∨ v = w

/-- Two call sites have the same call, and the same location up to a file that is not kept. -/
structure SameCall (keep : Bool) (site site' : CallSite) : Prop where
  declaringType : site.declaringType = site'.declaringType
  methodName : site.methodName = site'.methodName
  arguments : site.arguments = site'.arguments
  location : site.location.map (·.keepFile keep) = site'.location.map (·.keepFile keep)

section
variable {keep : Bool} {site site' : CallSite}

/-- The rules that apply to a call are those that apply to the same call of another program. -/
theorem SameCall.matching (h : SameCall keep site site') (index : RuleIndex) :
    index.matching site = index.matching site' := by
  have harity : site.arity = site'.arity := congrArg List.length h.arguments
  rw [RuleIndex.matching, RuleIndex.matching, h.declaringType, h.methodName]
  refine List.filter_congr fun rule _ => ?_
  rw [Rule.appliesTo, Rule.appliesTo, h.declaringType, h.methodName, harity]

theorem SameCall.provider (h : SameCall keep site site') (rule : Rule) :
    Provider.evaluate site rule = Provider.evaluate site' rule := by
  simp only [Provider.evaluate, h.arguments]

/-- The findings for a rule at the same call are the same, up to what depends on the order. -/
theorem SameCall.finding {keepsFile : String → Bool} {m n : Method}
    (h : SameCall (keepsFile m.className) site site') (hclass : m.className = n.className)
    (hsignature : m.signature = n.signature) {v w : ResolvedValue} (hvalue : SameKnowledge v w)
    (rule : Rule) :
    (finding rule m site v).orderFree keepsFile =
      (finding rule n site' w).orderFree keepsFile := by
  rcases hvalue with ⟨hv, hw⟩ | rfl
  · simp [Finding.orderFree, Scan.finding, CallSite.target, h.declaringType, h.methodName,
      h.provider rule, ← hclass, hsignature, hv, hw, h.location]
  · simp [Finding.orderFree, Scan.finding, CallSite.target, h.declaringType, h.methodName,
      h.provider rule, ← hclass, hsignature, h.location]

/-- A call is lowered to the same call, whatever the name of its method and, where files are not
kept, its file. -/
theorem sameCall_siteOf {file file' : Option String} (hfile : keep = true → file = file')
    (i j : MethodId) (solution : List (Option Facts)) (call : (Nat × Invocation) × Nat) :
    SameCall keep (siteOf file i solution call) (siteOf file' j solution call) := by
  refine ⟨rfl, rfl, rfl, ?_⟩
  cases keep with
  | true => rw [siteOf, siteOf, hfile rfl]
  | false => simp [siteOf, SourceLocation.keepFile, Function.comp_def]

end

/-- The body of a method that can be analysed. -/
def analyzedBody (e : Entry) : Option Body :=
  if e.model.isConcrete then e.model.body else none

/-- The call sites that are scanned in a lowered method are those of the body that its model has. -/
theorem analyzableBody_lowered (p : Program) (e : Entry) (i : MethodId) :
    (e.lowered p i).analyzableBody =
      (analyzedBody e).map (sitesOf (p.sourceFileOf e.className) i) := by
  rw [analyzedBody, apply_ite (Option.map _)]
  rfl

section
variable {name : String} {s t : List Source} {p q : Program} {σ : Equiv.Perm MethodId}

/-- How an algorithm is known does not depend on the order, and neither does one that is not
traced. -/
theorem sameKnowledge_algorithmAt (h : Reordering name s t p q σ) {site site' : CallSite}
    (harguments : site.arguments = site'.arguments) (bound : DepthBound) (e : Entry)
    (i : MethodId) (rule : Rule) :
    SameKnowledge (algorithmAt p bound (e.lowered p i) site rule)
      (algorithmAt q bound (e.lowered q (σ i)) site' rule) := by
  rw [algorithmAt, algorithmAt, harguments]
  cases site'.arguments[rule.algorithmIndex]? with
  | none => exact .inr rfl
  | some arg => exact (h.renames.resolve bound i arg).imp And.symm Eq.symm

/-- A call site has the same findings wherever the model of its method stands. -/
theorem orderFree_findingsAt (h : Reordering name s t p q σ) {keepsFile : String → Bool}
    {site site' : CallSite} {e : Entry} (hcall : SameCall (keepsFile e.className) site site')
    (index : RuleIndex) (bound : DepthBound) (i : MethodId) :
    (findingsAt p index bound (e.lowered p i) site).map (·.orderFree keepsFile) =
      (findingsAt q index bound (e.lowered q (σ i)) site').map (·.orderFree keepsFile) := by
  rw [findingsAt, findingsAt, List.map_map, List.map_map, hcall.matching index]
  refine List.map_congr_left fun rule _ => ?_
  exact hcall.finding (m := e.lowered p i) (n := e.lowered q (σ i)) rfl rfl
    (sameKnowledge_algorithmAt h hcall.arguments bound e i rule) rule

/-- A method has the same findings wherever its model stands. -/
theorem orderFree_scanMethod (h : Reordering name s t p q σ) {keepsFile : String → Bool}
    {e : Entry}
    (hfile : keepsFile e.className = true → p.sourceFileOf e.className = q.sourceFileOf e.className)
    (index : RuleIndex) (bound : DepthBound) (i : MethodId) :
    (scanMethod p index bound (e.lowered p i)).map (·.orderFree keepsFile) =
      (scanMethod q index bound (e.lowered q (σ i))).map (·.orderFree keepsFile) := by
  rw [scanMethod_eq_flatMap, scanMethod_eq_flatMap, analyzableBody_lowered, analyzableBody_lowered]
  cases analyzedBody e with
  | none => rfl
  | some b =>
    simp only [Option.map_some, Option.getD_some, sitesOf, List.flatMap_map, List.map_flatMap]
    refine congrArg (b.invocations.zipIdx.flatMap ·) (funext fun call => ?_)
    exact orderFree_findingsAt h (sameCall_siteOf hfile i (σ i) (Dataflow.propagate b) call)
      index bound i

/-- The findings in a lowered program are those in the methods of its models. -/
theorem scanWithin_perm_entries (h : lower name s = .ok p) (rules : RuleSet) (bound : DepthBound) :
    (scanWithin p rules bound).Perm ((entries s).zipIdx.flatMap fun e =>
      scanMethod p (.ofRules rules) bound (e.1.lowered p e.2)) := by
  have hperm := (methodsInOrder_perm_lower h).flatMap_right (scanMethod p (.ofRules rules) bound)
  rwa [lower_methods h, List.flatMap_map] at hperm

/-- The scans find the same up to what the order of models decides. -/
theorem orderFree_scanWithin_perm (h : Reordering name s t p q σ) {keepsFile : String → Bool}
    (hfile : ∀ className, keepsFile className = true →
      p.sourceFileOf className = q.sourceFileOf className)
    (rules : RuleSet) (bound : DepthBound) :
    ((scanWithin p rules bound).map (·.orderFree keepsFile)).Perm
      ((scanWithin q rules bound).map (·.orderFree keepsFile)) := by
  have hp := (scanWithin_perm_entries h.left rules bound).map (·.orderFree keepsFile)
  have hq := (scanWithin_perm_entries h.right rules bound).map (·.orderFree keepsFile)
  rw [List.map_flatMap] at hp hq
  have hmethods : (fun e : Entry × MethodId =>
        (scanMethod p (.ofRules rules) bound (e.1.lowered p e.2)).map (·.orderFree keepsFile)) =
      fun e => (scanMethod q (.ofRules rules) bound (e.1.lowered q (σ e.2))).map
        (·.orderFree keepsFile) :=
    funext fun e => orderFree_scanMethod h (hfile e.1.className) _ bound e.2
  have hpositions := (zipIdx_map_perm h.entry).flatMap_right fun e =>
    (scanMethod q (.ofRules rules) bound (e.1.lowered q e.2)).map (·.orderFree keepsFile)
  rw [List.flatMap_map] at hpositions
  rw [hmethods] at hp
  exact (hp.trans hpositions).trans hq.symm

/-- Models may be loaded in any order: they are lowered or refused alike, and the findings are the
same up to their order and what `Finding.orderFree` leaves out. -/
theorem scanProgram_perm_of_reordered (h : Reordered s t) (name : String) (rules : RuleSet)
    (settings : AnalysisSettings) :
    ((∃ p, lower name s = .ok p) ↔ ∃ q, lower name t = .ok q) ∧
      ∀ p q, lower name s = .ok p → lower name t = .ok q →
        ((scanProgram p rules settings).map (·.orderFree (declaredOnce s))).Perm
          ((scanProgram q rules settings).map (·.orderFree (declaredOnce s))) := by
  refine ⟨h.lower_ok_iff name, fun p q hp hq => ?_⟩
  obtain ⟨σ, hσ⟩ := exists_position_of_perm h.entries_perm
  exact orderFree_scanWithin_perm ⟨hp, hq, hσ⟩ (fun _ honce => h.sourceFileOf_eq hp hq honce) rules
    settings.depthBound

end

/-- A class with a method that passes a literal to a digest in another class. -/
def digestCaller (className algorithm : String) : ClassModel :=
  ⟨className, none, [⟨"run", none, [], true, some ⟨[.invoke
    ⟨"Util", "digest", [.literal algorithm], none, none, none⟩], none⟩⟩]⟩

/-- The class of the digest. -/
def digestClass (file : String) : ClassModel :=
  ⟨"Util", some file, [⟨"digest", none, ["a"], true, some ⟨[.invoke
    ⟨"MessageDigest", "getInstance", [.parameter 0], none, some 7, none⟩], none⟩⟩]⟩

/-- Two callers of a digest, whose class is declared twice. -/
def digestModels : List Source :=
  [⟨"a.json", ⟨none, [digestCaller "App" "MD5", ⟨"Util", some "A.java", []⟩]⟩⟩,
    ⟨"b.json", ⟨none, [digestCaller "Other" "SHA-256", digestClass "B.java"]⟩⟩]

/-- The same models, with both the files and the classes of one of them in another order. -/
def digestModelsReordered : List Source :=
  [⟨"b.json", ⟨none, [digestClass "B.java", digestCaller "Other" "SHA-256"]⟩⟩,
    ⟨"a.json", ⟨none, [digestCaller "App" "MD5", ⟨"Util", some "A.java", []⟩]⟩⟩]

/-- What a scan says of the digest, given the order of models. -/
def digestScan (sources : List Source) : List (String × Option SourceLocation) :=
  match lower "digest" sources with
  | .ok p => (scanProgram p digestRules .standard).map fun f => (f.algorithm, f.location)
  | .error _ => []

/-- The order of models decides which of two algorithms is found and which file the class has, but
nothing else. -/
theorem scanProgram_perm_of_reordered_digest :
    Reordered digestModels digestModelsReordered ∧
      digestScan digestModels = [("MD5", some ⟨some "B.java", 7⟩)] ∧
      digestScan digestModelsReordered = [("SHA-256", some ⟨some "A.java", 7⟩)] ∧
      ∃ p q, lower "digest" digestModels = .ok p ∧ lower "digest" digestModelsReordered = .ok q ∧
        ((scanProgram p digestRules .standard).map (·.orderFree (declaredOnce digestModels))).Perm
          ((scanProgram q digestRules .standard).map
            (·.orderFree (declaredOnce digestModels))) := by
  have hreordered : Reordered digestModels digestModelsReordered :=
    ⟨_, .swap _ _ _, .cons ⟨rfl, rfl, .swap _ _ _⟩ (.cons ⟨rfl, rfl, .refl _⟩ .nil)⟩
  have hok : (lower "digest" digestModels).isOk = true := by cbv
  obtain ⟨hiff, hperm⟩ := scanProgram_perm_of_reordered hreordered "digest" digestRules .standard
  cases hp : lower "digest" digestModels with
  | error => rw [hp] at hok; cases hok
  | ok p =>
    obtain ⟨q, hq⟩ := hiff.1 ⟨p, hp⟩
    exact ⟨hreordered, by cbv, by cbv, p, q, rfl, hq, hperm p q hp hq⟩

end Scan

end CryptoAudit
