import Std.Data.HashMap.Lemmas
import CryptoAudit.Rule.Basic

/-!
# Finding the rules of a call site

Rules are looked up by the method that they watch. `RuleIndex.matching` gives the rules that apply
to a call site, in the order of the rule set.
-/

namespace CryptoAudit

/-- The rules by declaring type and method name. -/
structure RuleIndex where
  byApi : Std.HashMap (String × String) (List Rule)

namespace RuleIndex

/-- Adds a rule after those that watch the same method. -/
def add (m : Std.HashMap (String × String) (List Rule)) (r : Rule) :
    Std.HashMap (String × String) (List Rule) :=
  let key := (r.declaringType, r.methodName)
  m.insert key (m.getD key [] ++ [r])

/-- The index of a rule set. -/
def ofRules (s : RuleSet) : RuleIndex := ⟨s.rules.foldl add ∅⟩

/-- The rules that apply to a call site. -/
def matching (index : RuleIndex) (site : CallSite) : List Rule :=
  (index.byApi.getD (site.declaringType, site.methodName) []).filter (·.appliesTo site)

end RuleIndex

end CryptoAudit
