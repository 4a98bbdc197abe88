import ToolAccess.Rule.Basic

/-!
# Rule sets and their evaluation

A rule set is a list of rules and a decision for the tools that no rule is about. Among the rules
that apply to a tool, the one with the highest priority decides, and of those with equal priority
the one declared first. `RuleSet.explain` finds it in one pass; `RuleSet.ordered` lists the active
rules in the order in which they are considered.
-/

namespace ToolAccess

/-- Rules in the order of declaration, and the decision when none of them applies. -/
structure RuleSet where
  rules : List Rule
  fallback : Decision
  deriving DecidableEq, Inhabited

/-- The rule behind a decision. -/
structure DecidingRule where
  /-- Its place in the order of declaration, from zero. -/
  index : Nat
  priority : Int64
  description : String
  deriving DecidableEq, Repr

/-- A decision and the rule behind it; without a rule it is the fallback. -/
structure Evaluation where
  decision : Decision
  rule : Option DecidingRule
  deriving DecidableEq, Repr, Inhabited

/-- A rule and its place in the order of declaration. -/
abbrev PlacedRule := Rule × Nat

/-- Of a rule found so far and a later one, the one with the higher priority, and the earlier one
if they are equal. -/
def PlacedRule.stronger (found : Option PlacedRule) (later : PlacedRule) : Option PlacedRule :=
  match found with
  | some earlier => if earlier.1.priority < later.1.priority then some later else some earlier
  | none => some later

/-- The first among the rules of highest priority. -/
def PlacedRule.strongest? (rules : List PlacedRule) : Option PlacedRule :=
  rules.foldl stronger none

/-- Whether the first rule may stand before the second in the order of evaluation. -/
def PlacedRule.precedes (a b : PlacedRule) : Bool := decide (b.1.priority ≤ a.1.priority)

namespace RuleSet

/-- The rules that apply to a tool, with their places. -/
def applicable (s : RuleSet) (taint : TaintLevel) (tool : ToolIdentity) (tags : TagSet) :
    List PlacedRule :=
  s.rules.zipIdx.filter fun r ↦ r.1.applies taint tool tags

/-- The decision for a tool at a taint level, and the rule that decides. -/
def explain (s : RuleSet) (tool : ToolIdentity) (tags : TagSet) (taint : TaintLevel) :
    Evaluation :=
  match PlacedRule.strongest? (s.applicable taint tool tags) with
  | some (rule, index) => ⟨rule.decision, some ⟨index, rule.priority, rule.description⟩⟩
  | none => ⟨s.fallback, none⟩

/-- The decision for a tool at a taint level. -/
def evaluate (s : RuleSet) (tool : ToolIdentity) (tags : TagSet) (taint : TaintLevel) : Decision :=
  (s.explain tool tags taint).decision

/-- The rules active at a taint level in the order of evaluation: by falling priority, and in the
order of declaration where the priority is the same. -/
def ordered (s : RuleSet) (taint : TaintLevel) : List PlacedRule :=
  (s.rules.zipIdx.filter fun r ↦ r.1.isActiveAt taint).mergeSort PlacedRule.precedes

end RuleSet

end ToolAccess
