import ToolAccess.Event
import ToolAccess.Layer
import ToolAccess.Registry

/-!
# The decision engine

An engine is the registry of tags and one merged rule set for each profile, besides a base rule
set for turns without one. It is built once and never changes. A profile that is not configured
is treated as none.

Each function that reports events has a companion that gives the events, so that a decision can
be reasoned about without them.
-/

namespace ToolAccess

/-- Everything a decision depends on besides the turn and the tool. -/
structure Engine where
  registry : Registry
  /-- The rules for turns without a configured profile. -/
  base : RuleSet
  /-- The rules of each configured profile. -/
  profiles : SortedMap String RuleSet
  deriving Inhabited

/-- The layers that an engine is made from. -/
structure LayerTable where
  defaults : Layer
  overrides : Layer
  profiles : SortedMap String Layer
  deriving Inhabited

namespace LayerTable

/-- The stack of layers for a profile, or for none. -/
def stack (t : LayerTable) (profile : Option Layer) : LayerStack :=
  ⟨t.defaults, t.overrides, profile⟩

/-- The event of merging a stack of layers. -/
def mergeEvent (offset : Int64) (l : LayerStack) : Event :=
  .layersMerged l.overrides.rules.length l.profileRules.length l.defaults.rules.length l.fallback
    offset

/-- The events of building an engine: one for each merge, and one at the end. -/
def buildEvents (t : LayerTable) (offset : Int64) : List Event :=
  mergeEvent offset (t.stack none) ::
    (t.profiles.entries.map fun p ↦ mergeEvent offset (t.stack (some p.2))) ++
    [.engineReady ((t.stack none).merge offset).rules.length t.profiles.size]

end LayerTable

namespace Engine

/-- The engine of a registry and the layers of a policy. -/
def ofLayers (registry : Registry) (offset : Int64) (t : LayerTable) : Engine where
  registry
  base := (t.stack none).merge offset
  profiles := t.profiles.mapValues fun _ layer ↦ (t.stack (some layer)).merge offset

/-- The engine of one rule set, without profiles. -/
def ofRuleSet (registry : Registry) (rules : RuleSet) : Engine := ⟨registry, rules, ∅⟩

/-- The tags of a tool. -/
def tagsFor (e : Engine) (tool : ToolIdentity) : TagSet := e.registry.tagsFor tool

/-- The events of looking up the tags of a tool. -/
def tagsEvents (e : Engine) (tool : ToolIdentity) : List Event :=
  if e.registry.lacks tool then [.tagsMissing tool.name] else []

/-- The rules for a profile; those of the base where it is not configured. -/
def ruleSet (e : Engine) (profile : Option String) : RuleSet :=
  (profile.bind e.profiles.find?).getD e.base

/-- The events of looking up the rules for a profile. -/
def ruleSetEvents (e : Engine) (profile : Option String) : List Event :=
  match profile with
  | some name => if e.profiles.contains name then [] else [.profileUnknown name]
  | none => []

/-- The evaluation of a tool whose tags are known. -/
def evaluateWithTags (e : Engine) (tool : ToolIdentity) (tags : TagSet) (profile : Option String)
    (taint : TaintLevel) : Evaluation :=
  (e.ruleSet profile).explain tool tags taint

/-- The evaluation of a tool. -/
def evaluate (e : Engine) (tool : ToolIdentity) (profile : Option String) (taint : TaintLevel) :
    Evaluation :=
  e.evaluateWithTags tool (e.tagsFor tool) profile taint

/-- The events of evaluating a tool whose tags are known. -/
def evaluateWithTagsEvents (e : Engine) (tool : ToolIdentity) (tags : TagSet)
    (profile : Option String) (taint : TaintLevel) : List Event :=
  let evaluation := e.evaluateWithTags tool tags profile taint
  e.ruleSetEvents profile ++
    [.evaluated tool.display profile taint evaluation.decision (evaluation.rule.map (·.index))]

/-- The events of evaluating a tool. -/
def evaluateEvents (e : Engine) (tool : ToolIdentity) (profile : Option String)
    (taint : TaintLevel) : List Event :=
  e.tagsEvents tool ++ e.evaluateWithTagsEvents tool (e.tagsFor tool) profile taint

/-- The names of the configured profiles, sorted. -/
def profileNames (e : Engine) : List String := e.profiles.keys

end Engine

end ToolAccess
