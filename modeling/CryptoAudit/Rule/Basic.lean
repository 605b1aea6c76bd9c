import CryptoAudit.Finding.Severity
import CryptoAudit.Json.Document
import CryptoAudit.Program.CallSite
import CryptoAudit.Regex.Compile
import CryptoAudit.Text.Blank

/-!
# Rules

A rule watches one method of an API: it says which argument is the algorithm, which one, if any, is
the provider, and by which pattern weak algorithms are known. Rules are written as `RawRule`s;
`RawRule.validate` checks one and compiles its pattern, and `RuleSet.ofRawWith` checks a list, of
which the first rule that is wrong is reported. The compiler of patterns is a parameter of both: it
gives an expression, or its own words for why there is none. `RuleSet.ofRaw` takes `Regex.compile`.
-/

namespace CryptoAudit

open Document

/-- A rule as it is written. -/
structure RawRule where
  id : Option String
  category : String
  declaringType : String
  methodName : String
  algorithmIndex : Int
  providerIndex : Option Int
  pattern : Option String
  severity : Severity
  description : String
deriving DecidableEq, Inhabited

/-- A rule that has been checked. -/
structure Rule where
  id : String
  category : String
  declaringType : String
  methodName : String
  algorithmIndex : Nat
  providerIndex : Option Nat
  pattern : Option String
  severity : Severity
  description : String
  /-- The compiled pattern. -/
  regex : Option Regex
deriving DecidableEq, Inhabited

/-- What is wrong with a rule. -/
inductive RuleDefect where
  | missingName
  | negativeAlgorithm (index : Int)
  | negativeProvider (index : Int)
  /-- Algorithm and provider are the same argument. -/
  | collision (index : Nat)
  /-- The compiler refuses the pattern, for this reason. -/
  | badPattern (reason : String)
deriving DecidableEq, Inhabited

/-- The words for what is wrong with a rule, without those of the compiler of patterns. -/
def RuleDefect.message : RuleDefect → String
  | .missingName => "declaring type and method name are required"
  | .negativeAlgorithm i => "algorithm_arg_index must be non-negative, got " ++ toString i
  | .negativeProvider i => "provider_arg_index must be non-negative, got " ++ toString i
  | .collision i => "provider_arg_index " ++ toString i ++ " collides with algorithm_arg_index"
  | .badPattern _ => "invalid match_pattern"

/-- The words of the compiler of patterns. -/
def RuleDefect.reason? : RuleDefect → Option String
  | .badPattern reason => some reason
  | _ => none

/-- A rule that is wrong, with the label by which it is reported. -/
structure RuleError where
  label : String
  defect : RuleDefect
deriving DecidableEq, Inhabited

/-- The message about a rule that is wrong: what is wrong, and after a colon what the compiler says
about its pattern. -/
def RuleError.message (e : RuleError) : String :=
  match e.defect.reason? with
  | none => e.defect.message
  | some reason => e.defect.message ++ ": " ++ reason

/-- An index, if the integer is one. -/
def toIndex? : Int → Option Nat
  | .ofNat n => some n
  | .negSucc _ => none

namespace RawRule

/-- The label of the rule at this position. -/
def label (r : RawRule) (position : Nat) : String :=
  r.id.getD ("#" ++ toString position ++ " " ++ r.declaringType ++ "." ++ r.methodName)

/-- The index of the provider, which must not be that of the algorithm. -/
def checkProvider (algorithm : Nat) : Option Int → Except RuleDefect (Option Nat)
  | none => .ok none
  | some raw =>
    match toIndex? raw with
    | none => .error (.negativeProvider raw)
    | some i => if i = algorithm then .error (.collision i) else .ok (some i)

/-- The compiled pattern. -/
def compilePattern (compile : String → Except String Regex) :
    Option String → Except RuleDefect (Option Regex)
  | none => .ok none
  | some s =>
    match compile s with
    | .ok r => .ok (some r)
    | .error reason => .error (.badPattern reason)

/-- Checks a rule: its names, the two indices, and the pattern, in this order. -/
def check (compile : String → Except String Regex) (r : RawRule) : Except RuleDefect Rule := do
  if Text.isBlankText r.declaringType || Text.isBlankText r.methodName then
    throw .missingName
  let algorithmIndex ←
    match toIndex? r.algorithmIndex with
    | some i => pure i
    | none => throw (.negativeAlgorithm r.algorithmIndex)
  let providerIndex ← checkProvider algorithmIndex r.providerIndex
  let regex ← compilePattern compile r.pattern
  return {
    id := r.id.getD (r.category ++ ":" ++ r.declaringType ++ "." ++ r.methodName)
    category := r.category
    declaringType := r.declaringType
    methodName := r.methodName
    algorithmIndex
    providerIndex
    pattern := r.pattern
    severity := r.severity
    description := r.description
    regex }

/-- Checks the rule at this position of a list. -/
def validate (compile : String → Except String Regex) (r : RawRule) (position : Nat) :
    Except RuleError Rule :=
  match r.check compile with
  | .ok rule => .ok rule
  | .error defect => .error ⟨r.label position, defect⟩

/-- The fields of a written rule. -/
def fields : List Field := [
  .loose "id",
  .fixed "category",
  ⟨"declaring_type", ["className", "class_name"], false⟩,
  ⟨"method_name", ["methodName"], false⟩,
  ⟨"algorithm_arg_index", ["algoArgIndex", "algo_arg_index"], false⟩,
  ⟨"provider_arg_index", ["providerArgIndex"], true⟩,
  ⟨"match_pattern", ["matchPattern", "match"], true⟩,
  .loose "severity",
  .loose "description"]

/-- Reads a rule. -/
def read? {δ : Type} [Document δ] (v : δ) : Option RawRule :=
  match record? fields v with
  | some [id, category, declaringType, methodName, algorithmIndex, providerIndex, pattern,
      severity, description] => do
    return {
      id := ← optional text? id
      category := ← required text? category
      declaringType := ← required text? declaringType
      methodName := ← required text? methodName
      algorithmIndex := ← required signed? algorithmIndex
      providerIndex := ← optional signed? providerIndex
      pattern := ← optional text? pattern
      severity := ← orElse .high Severity.read? severity
      description := ← orElse "" text? description }
  | _ => none

end RawRule

namespace Rule

/-- The watched method with its declaring type. -/
def api (r : Rule) : String := r.declaringType ++ "." ++ r.methodName

/-- The algorithm is weak by the pattern of the rule. -/
def matchesAlgorithm (r : Rule) (algorithm : String) : Bool :=
  match r.regex with
  | some regex => regex.isMatch algorithm
  | none => false

/-- The call site calls the watched method and has the argument for the algorithm. -/
def appliesTo (r : Rule) (site : CallSite) : Bool :=
  r.declaringType == site.declaringType && r.methodName == site.methodName &&
    r.algorithmIndex < site.arity

/-- A rule as JSON. -/
def toJson (r : Rule) : Json :=
  .object [
    ("id", .text r.id),
    ("category", .text r.category),
    ("declaring_type", .text r.declaringType),
    ("method_name", .text r.methodName),
    ("algorithm_arg_index", .nat r.algorithmIndex),
    ("provider_arg_index", .ofNat? r.providerIndex),
    ("match_pattern", .ofText? r.pattern),
    ("severity", .text r.severity.name),
    ("description", .text r.description)]

end Rule

/-- Rules in order. -/
structure RuleSet where
  rules : List Rule
deriving DecidableEq, Inhabited

namespace RuleSet

/-- Checks a list of rules whose patterns this compiler compiles. -/
def ofRawWith (compile : String → Except String Regex) (raw : List RawRule) :
    Except RuleError RuleSet := do
  let rules ← raw.zipIdx.mapM fun (r, position) => r.validate compile position
  return ⟨rules⟩

/-- Checks a list of rules. -/
def ofRaw (raw : List RawRule) : Except RuleError RuleSet := ofRawWith Regex.compile raw

/-- A set of rules as JSON. -/
def toJson (s : RuleSet) : Json := .list (s.rules.map Rule.toJson)

end RuleSet

end CryptoAudit
